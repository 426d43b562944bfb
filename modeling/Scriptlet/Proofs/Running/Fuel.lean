import Mathlib.Tactic.Use
import Scriptlet.Proofs.Running.Progress

/-!
# Fuel of runs

A run that does not use up its fuel comes to the same with more (`Task.run_mono`).  So a task
halts from a machine if some fuel is enough, and it does if the tasks that its plan comes to start
halt (`Task.Halts.of_plan`).
-/

namespace Scriptlet

variable {σ : Type}

namespace Outcome

variable {α β : Type}

/-- Whether the fuel was used up. -/
def Exhausted : Outcome σ α → Prop
  | .error .exhausted _ => True
  | _ => False

/-- If a run does not use up its fuel with what goes on with it, then it does not without. -/
theorem not_exhausted_andThen {r : Outcome σ α} {next : α → Machine σ → Outcome σ β}
    (h : ¬ (r.andThen next).Exhausted) :
  ¬ r.Exhausted
  := by
  cases r with
  | ok a m => exact id
  | error u m =>
      cases u
      all_goals exact h

/-- Runs that come to the same go on to the same. -/
theorem andThen_congr {r : Outcome σ α} {next next' : α → Machine σ → Outcome σ β}
    (h : ¬ (r.andThen next).Exhausted)
    (hnext : ∀ a m, ¬ (next a m).Exhausted → next' a m = next a m) :
  r.andThen next' = r.andThen next
  := by
  cases r with
  | ok a m => exact hnext a m h
  | error u m => rfl

end Outcome

/-- Fuel that is used up in a bracket is used up around it. -/
theorem Bracket.exhausted_outcome (b : Bracket) (m : Machine σ) {r : Outcome σ Value}
    (h : r.Exhausted) :
  (b.outcome m r).Exhausted
  := by
  rcases r with ⟨v, m'⟩ | ⟨u, m'⟩
  · exact h
  · cases u
    case exhausted =>
      cases b
      all_goals trivial
    all_goals exact h.elim

variable {setting : Setting σ}

/-! ### More fuel -/

/-- A plan comes to the same if the tasks it starts do. -/
theorem Plan.run_congr {start start' : {y : Yield} → Task y → RunOn σ y.Of} {α : Type}
    (hstart : ∀ {y : Yield} (t : Task y) m, ¬ Outcome.Exhausted (start t m) →
      start' t m = start t m)
    (p : Plan α) (m : Machine σ) (hp : ¬ Outcome.Exhausted (p.run setting start m)) :
  p.run setting start' m = p.run setting start m
  := by
  induction p generalizing m with
  | ret a => rfl
  | leave v => rfl
  | stop f => rfl
  | act a next ih =>
      rw [run_act] at hp ⊢
      rw [run_act]
      exact Outcome.andThen_congr hp ih
  | tick pos next ih =>
      rw [run_tick] at hp ⊢
      rw [run_tick]
      exact Outcome.andThen_congr hp fun _ => ih
  | room full next ihfull ih =>
      rw [run_room] at hp ⊢
      rw [run_room]
      split
      · rename_i hfull
        rw [if_pos hfull] at hp
        exact ihfull _ m hp
      · rename_i hfull
        rw [if_neg hfull] at hp
        exact ih m hp
  | call t next ih =>
      rw [run_call] at hp ⊢
      rw [run_call, hstart t m (Outcome.not_exhausted_andThen hp)]
      exact Outcome.andThen_congr hp ih
  | within b t next ih =>
      rw [run_within] at hp ⊢
      have hinner : ¬ Outcome.Exhausted (start t (b.opened m)) := by
        intro h
        exact Outcome.not_exhausted_andThen hp (b.exhausted_outcome m h)
      rw [run_within, hstart t _ hinner]
      exact Outcome.andThen_congr hp ih

/-- A task that does not use up its fuel comes to the same with one more. -/
theorem Task.run_succ_eq (n : Nat) {y : Yield} (t : Task y) (m : Machine σ)
    (h : ¬ Outcome.Exhausted (t.run setting n m)) :
  t.run setting (n + 1) m = t.run setting n m
  := by
  induction n generalizing y t m with
  | zero =>
      rw [run_zero] at h
      exact absurd trivial h
  | succ n ih =>
      rw [run_succ] at h ⊢
      rw [run_succ]
      exact Plan.run_congr (fun t m => ih t m) _ m h

/-- More fuel changes nothing if the fuel was not used up. -/
theorem Task.run_mono {n k : Nat} (hnk : n ≤ k) {y : Yield} {t : Task y} {m : Machine σ}
    (h : ¬ Outcome.Exhausted (t.run setting n m)) :
  t.run setting k m = t.run setting n m
  := by
  induction hnk with
  | refl => rfl
  | step _ ih =>
      rw [← ih] at h
      rw [run_succ_eq _ t m h, ih]

/-! ### Tasks that halt -/

/-- Whether some fuel is enough for a task. -/
def Task.Halts (setting : Setting σ) {y : Yield} (t : Task y) (m : Machine σ) : Prop :=
  ∃ n, ¬ Outcome.Exhausted (t.run setting n m)

/-- Whether the tasks halt that the run of a plan comes to start. -/
def Plan.Halts (setting : Setting σ) {α : Type} : Plan α → Machine σ → Prop
  | ret _, _ | leave _, _ | stop _, _ => True
  | act a next, m => ∀ v m', a.run setting m = .ok v m' → (next v).Halts setting m'
  | tick pos next, m => ∀ m', Run.tick setting pos m = .ok () m' → next.Halts setting m'
  | room full next, m =>
    if setting.options.maxDepth ≤ m.control.depth then
      (full setting.options.maxDepth).Halts setting m
    else
      next.Halts setting m
  | call t next, m =>
    t.Halts setting m
    ∧ ∀ n v m', t.run setting n m = .ok v m' → (next v).Halts setting m'
  | within b t next, m =>
    t.Halts setting (b.opened m)
    ∧ ∀ n v m', b.run (t.run setting n) m = .ok v m' → (next v).Halts setting m'

/-- A task that halts comes to the same from some fuel on. -/
theorem Task.Halts.exists_eq {y : Yield} {t : Task y} {m : Machine σ} (h : t.Halts setting m) :
  ∃ n, ∀ k, n ≤ k → t.run setting k m = t.run setting n m
    ∧ ¬ Outcome.Exhausted (t.run setting k m)
  := by
  obtain ⟨n, hn⟩ := h
  use n
  intro k hk
  have heq := Task.run_mono hk hn
  exact ⟨heq, heq ▸ hn⟩

/-- Some fuel is enough to go on after an outcome that is the same with enough fuel. -/
theorem exists_andThen {α β : Type} {r : Nat → Outcome σ α}
    {next : Nat → α → Machine σ → Outcome σ β}
    {n : Nat} (hr : ∀ k, n ≤ k → r k = r n ∧ ¬ (r k).Exhausted)
    (hnext : ∀ a m, r n = .ok a m → ∃ k, ∀ l, k ≤ l → ¬ (next l a m).Exhausted) :
  ∃ k, ∀ l, k ≤ l → ¬ ((r l).andThen (next l)).Exhausted
  := by
  cases hrn : r n with
  | ok a m =>
      obtain ⟨k, hk⟩ := hnext a m hrn
      use max n k
      intro l hl
      rw [(hr l (Nat.le_trans (Nat.le_max_left n k) hl)).1, hrn]
      exact hk l (Nat.le_trans (Nat.le_max_right n k) hl)
  | error u m =>
      use n
      intro l hl
      obtain ⟨heq, hfinished⟩ := hr l hl
      rw [heq, hrn] at hfinished ⊢
      cases u
      all_goals exact hfinished

/-- A quiet run needs no fuel. -/
theorem not_exhausted_of_quiet {α : Type} {r : RunOn σ α} (hr : Quiet r) (m : Machine σ) :
  ¬ Outcome.Exhausted (r m)
  := by
  intro h
  cases hrun : r m with
  | ok a m' =>
      rw [hrun] at h
      exact h
  | error u m' =>
      rw [hrun] at h
      rcases hr.stops hrun with ⟨f, rfl⟩ | ⟨rfl, -⟩
      all_goals exact h

/-- Counting a step needs no fuel. -/
theorem not_exhausted_tick (pos : Position) (m : Machine σ) :
  ¬ Outcome.Exhausted (Run.tick setting pos m)
  := by
  rw [Run.tick_apply]
  split
  · exact id
  · dsimp only
    split
    all_goals exact id

/-- Fuel that is enough in a bracket is enough around it. -/
theorem Bracket.not_exhausted_outcome (b : Bracket) (m : Machine σ) {r : Outcome σ Value}
    (h : ¬ r.Exhausted) :
  ¬ (b.outcome m r).Exhausted
  := by
  rcases r with ⟨v, m'⟩ | ⟨u, m'⟩
  · exact id
  · cases u
    case exhausted => exact absurd trivial h
    all_goals
      cases b
      all_goals exact id

/-- Some fuel is enough for a plan if some is enough for each task that it comes to start. -/
theorem Plan.Halts.exists_fuel {α : Type} {p : Plan α} {m : Machine σ} (hp : p.Halts setting m) :
  ∃ n, ∀ k, n ≤ k → ¬ Outcome.Exhausted (p.run setting (Task.run setting k) m)
  := by
  induction p generalizing m with
  | ret a => exact ⟨0, fun _ _ => id⟩
  | leave v => exact ⟨0, fun _ _ => id⟩
  | stop f => exact ⟨0, fun _ _ => id⟩
  | act a next ih =>
      simp only [run_act]
      exact exists_andThen (n := 0)
        (fun _ _ => ⟨rfl, not_exhausted_of_quiet (a.quiet_run setting) m⟩)
        fun v m' hrun => ih v (hp v m' hrun)
  | tick pos next ih =>
      simp only [run_tick]
      exact exists_andThen (n := 0) (fun _ _ => ⟨rfl, not_exhausted_tick pos m⟩)
        fun _ m' hrun => ih (hp m' hrun)
  | room full next ihfull ih =>
      simp only [run_room]
      unfold Halts at hp
      split
      · rename_i hfull
        rw [if_pos hfull] at hp
        exact ihfull _ hp
      · rename_i hfull
        rw [if_neg hfull] at hp
        exact ih hp
  | call t next ih =>
      simp only [run_call]
      -- With so much fuel the task comes to one outcome, and the rest of the plan is that behind
      -- it.
      obtain ⟨n, hn⟩ := hp.1.exists_eq
      exact exists_andThen hn fun v m' hrun => ih v (hp.2 n v m' hrun)
  | within b t next ih =>
      simp only [run_within]
      obtain ⟨n, hn⟩ := hp.1.exists_eq
      refine exists_andThen (n := n) (fun k hk => ?_) fun v m' hrun => ih v (hp.2 n v m' hrun)
      rw [(hn k hk).1]
      exact ⟨rfl, b.not_exhausted_outcome m ((hn k hk).1 ▸ (hn k hk).2)⟩

/-- A task halts if the tasks do that its plan comes to start. -/
theorem Task.Halts.of_plan {y : Yield} {t : Task y} {m : Machine σ}
    (h : (t.plan setting).Halts setting m) :
  t.Halts setting m
  := by
  obtain ⟨n, hn⟩ := h.exists_fuel
  use n + 1
  rw [run_succ]
  exact hn n (Nat.le_refl n)

end Scriptlet
