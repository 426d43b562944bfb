import Scriptlet.Proofs.Running.Fuel

/-!
# What tasks come to

A task comes to an outcome if its run does with some fuel, and with more fuel it comes to the same.
It comes to what its plan does (`Task.ends_iff`), and a plan comes to what follows from the outcomes
of the tasks that it starts.  Fuel is not spoken of in these rules.
-/

namespace Scriptlet

variable {σ : Type}

/-- Whether a task comes to an outcome if it has enough fuel. -/
def Task.Ends (setting : Setting σ) {y : Yield} (t : Task y) (m : Machine σ) (r : Outcome σ y.Of) :
    Prop :=
  ∃ n, t.run setting n m = r ∧ ¬ r.Exhausted

/-- Whether a plan comes to an outcome if its tasks have enough fuel. -/
def Plan.Ends (setting : Setting σ) {α : Type} (p : Plan α) (m : Machine σ)
    (r : Outcome σ α) : Prop :=
  ∃ n, p.run setting (Task.run setting n) m = r ∧ ¬ r.Exhausted

variable {setting : Setting σ} {y : Yield} {m : Machine σ} {α : Type} {r : Outcome σ α}

/-- An outcome that stops a run does so whatever the run is to make, and has not used up the
fuel. -/
theorem Outcome.not_exhausted_error {β : Type} {u : Unwind}
    (h : ¬ Exhausted (.error u m : Outcome σ β)) :
  ¬ Exhausted (.error u m : Outcome σ α)
  := by
  cases u
  all_goals exact h

/-- A plan that does not use up the fuel of its tasks comes to the same if they have more. -/
theorem Plan.run_mono {n k : Nat} (hnk : n ≤ k) {p : Plan α}
    (h : ¬ Outcome.Exhausted (p.run setting (Task.run setting n) m)) :
  p.run setting (Task.run setting k) m = p.run setting (Task.run setting n) m
  := Plan.run_congr (fun _ _ => Task.run_mono hnk) p m h

/-- A task comes to one outcome only. -/
theorem Task.Ends.unique {t : Task y} {r₁ r₂ : Outcome σ y.Of} (h₁ : t.Ends setting m r₁)
    (h₂ : t.Ends setting m r₂) :
  r₁ = r₂
  := by
  obtain ⟨n₁, rfl, hn₁⟩ := h₁
  obtain ⟨n₂, rfl, hn₂⟩ := h₂
  calc t.run setting n₁ m
    _ = t.run setting (max n₁ n₂) m := (run_mono (Nat.le_max_left n₁ n₂) hn₁).symm
    _ = t.run setting n₂ m := run_mono (Nat.le_max_right n₁ n₂) hn₂

/-- A task comes to what its plan does. -/
theorem Task.ends_iff {t : Task y} {r : Outcome σ y.Of} :
  t.Ends setting m r ↔ (t.plan setting).Ends setting m r
  := by
  constructor
  · rintro ⟨_ | n, rfl, hn⟩
    · rw [run_zero] at hn
      exact absurd trivial hn
    · refine ⟨n, ?_, hn⟩
      rw [run_succ]
  · rintro ⟨n, rfl, hn⟩
    refine ⟨n + 1, ?_, hn⟩
    rw [run_succ]

namespace Plan

/-- A plan that is over comes to its value. -/
theorem ends_ret {a : α} :
  (ret a).Ends setting m r ↔ r = .ok a m
  := by
  constructor
  · rintro ⟨n, rfl, -⟩
    rfl
  · rintro rfl
    exact ⟨0, rfl, id⟩

/-- A plan that stops comes to its fault. -/
theorem ends_stop {f : Fault} :
  (stop f).Ends setting m r ↔ r = .error (.fault f) m
  := by
  constructor
  · rintro ⟨n, rfl, -⟩
    rfl
  · rintro rfl
    exact ⟨0, rfl, id⟩

/-- A plan that leaves comes to a `return`. -/
theorem ends_leave {v : Value} :
  (leave v).Ends setting m r ↔ r = .error (.ret v) m
  := by
  constructor
  · rintro ⟨n, rfl, -⟩
    rfl
  · rintro rfl
    exact ⟨0, rfl, id⟩

/-- A plan comes to what follows the outcome of an action. -/
theorem ends_act {a : Action} {next : a.Result → Plan α} :
  (act a next).Ends setting m r
    ↔ Outcome.Follows (a.run setting m) (fun v m' => (next v).Ends setting m' r)
      fun u m' => r = .error u m'
  := by
  have hquiet := not_exhausted_of_quiet (a.quiet_run setting) m
  unfold Ends
  simp only [run_act]
  cases hrun : a.run setting m with
  | ok v m' => rfl
  | error u m' =>
      rw [hrun] at hquiet
      constructor
      · rintro ⟨n, rfl, -⟩
        rfl
      · rintro rfl
        exact ⟨0, rfl, Outcome.not_exhausted_error hquiet⟩

/-- A plan goes on where there is room, and otherwise with what it has for that case. -/
theorem ends_room {full : Nat → Plan α} {next : Plan α} :
  (room full next).Ends setting m r
    ↔ if setting.options.maxDepth ≤ m.control.depth then
        (full setting.options.maxDepth).Ends setting m r
      else
        next.Ends setting m r
  := by
  unfold Ends
  simp only [run_room]
  split
  all_goals rfl

/-- What follows an outcome that stays the same with more fuel. -/
theorem exists_andThen_iff {β : Type} {first : Nat → Outcome σ β} {next : β → Plan α}
    (hfirst : ∀ n k, n ≤ k → ¬ (first n).Exhausted → first k = first n) :
  (∃ n, (first n).andThen (fun v m' => (next v).run setting (Task.run setting n) m') = r
    ∧ ¬ r.Exhausted)
  ↔ ∃ r₁, (∃ n, first n = r₁ ∧ ¬ r₁.Exhausted)
    ∧ r₁.Follows (fun v m' => (next v).Ends setting m' r) fun u m' => r = .error u m'
  := by
  constructor
  · rintro ⟨n, rfl, hn⟩
    refine ⟨first n, ⟨n, rfl, Outcome.not_exhausted_andThen hn⟩, ?_⟩
    cases hr : first n with
    | ok v m' =>
        rw [hr] at hn
        exact ⟨n, rfl, hn⟩
    | error u m' => rfl
  · rintro ⟨r₁, ⟨n, rfl, hn⟩, hfollows⟩
    cases hr : first n with
    | ok v m' =>
        rw [hr] at hfollows
        obtain ⟨k, rfl, hk⟩ := hfollows
        refine ⟨max n k, ?_, hk⟩
        rw [hfirst n _ (Nat.le_max_left n k) hn, hr]
        exact run_mono (Nat.le_max_right n k) hk
    | error u m' =>
        rw [hr] at hfollows hn
        obtain rfl : r = .error u m' := hfollows
        refine ⟨n, ?_, Outcome.not_exhausted_error hn⟩
        rw [hr]
        rfl

/-- A plan comes to what follows an outcome that a task comes to. -/
theorem ends_call {t : Task y} {next : y.Of → Plan α} :
  (call t next).Ends setting m r
    ↔ ∃ r₁, t.Ends setting m r₁
      ∧ r₁.Follows (fun v m' => (next v).Ends setting m' r) fun u m' => r = .error u m'
  := by
  unfold Ends
  simp only [run_call]
  apply exists_andThen_iff
  intro n k hnk hn
  exact Task.run_mono hnk hn

/-- A plan comes to what follows an outcome that a task comes to in a bracket. -/
theorem ends_within {b : Bracket} {t : Task .value} {next : Value → Plan α} :
  (within b t next).Ends setting m r
    ↔ ∃ r₁, t.Ends setting (b.opened m) r₁
      ∧ (b.outcome m r₁).Follows (fun v m' => (next v).Ends setting m' r)
        fun u m' => r = .error u m'
  := by
  have hmono : ∀ n k, n ≤ k → ¬ (b.outcome m (t.run setting n (b.opened m))).Exhausted →
      b.outcome m (t.run setting k (b.opened m)) = b.outcome m (t.run setting n (b.opened m)) := by
    intro n k hnk hn
    rw [Task.run_mono hnk fun h => hn (b.exhausted_outcome m h)]
  have hends : (within b t next).Ends setting m r
      ↔ ∃ r₁, (∃ n, b.outcome m (t.run setting n (b.opened m)) = r₁ ∧ ¬ r₁.Exhausted)
        ∧ r₁.Follows (fun v m' => (next v).Ends setting m' r) fun u m' => r = .error u m' := by
    unfold Ends
    simp only [run_within]
    exact exists_andThen_iff hmono
  rw [hends]
  constructor
  · rintro ⟨_, ⟨n, rfl, hn⟩, hfollows⟩
    exact ⟨_, ⟨n, rfl, fun h => hn (b.exhausted_outcome m h)⟩, hfollows⟩
  · rintro ⟨_, ⟨n, rfl, hn⟩, hfollows⟩
    exact ⟨_, ⟨n, rfl, b.not_exhausted_outcome m hn⟩, hfollows⟩

/-- A plan comes to what follows the value that an action leads to. -/
theorem ends_of_act {a : Action} {v : a.Result} {m' : Machine σ} {next : a.Result → Plan α}
    (ha : a.run setting m = .ok v m') (hnext : (next v).Ends setting m' r) :
  (act a next).Ends setting m r
  := by
  rw [ends_act, ha]
  exact hnext

/-- A plan comes to what follows a step that is counted. -/
theorem ends_of_tick {pos : Position} {m' : Machine σ} {next : Plan α}
    (ht : Run.tick setting pos m = .ok () m') (hnext : next.Ends setting m' r) :
  (tick pos next).Ends setting m r
  := by
  obtain ⟨n, rfl, hn⟩ := hnext
  refine ⟨n, ?_, hn⟩
  rw [run_tick, ht]
  rfl

/-- A plan comes to what follows the value that a task comes to. -/
theorem ends_of_call {t : Task y} {v : y.Of} {m' : Machine σ} {next : y.Of → Plan α}
    (ht : t.Ends setting m (.ok v m')) (hnext : (next v).Ends setting m' r) :
  (call t next).Ends setting m r
  := ends_call.mpr ⟨_, ht, hnext⟩

/-- A plan comes to what follows the value that a task in a bracket comes to. -/
theorem ends_of_within {b : Bracket} {t : Task .value} {v : Value} {m' : Machine σ}
    {next : Value → Plan α} (ht : t.Ends setting (b.opened m) (.ok v m'))
    (hnext : (next v).Ends setting (b.closed m m') r) :
  (within b t next).Ends setting m r
  := ends_within.mpr ⟨_, ht, hnext⟩

/-- A plan that ends with a task in a bracket comes to what the bracket makes of the task. -/
theorem ends_within_last {b : Bracket} {t : Task .value} {r : Outcome σ Value}
    (ht : t.Ends setting (b.opened m) r) :
  (within b t .ret).Ends setting m (b.outcome m r)
  := by
  refine ends_within.mpr ⟨r, ht, ?_⟩
  cases b.outcome m r with
  | ok v m' => exact ends_ret.mpr rfl
  | error u m' => rfl

end Plan

namespace Outcome

variable {β γ : Type} {first : Outcome σ α → Prop} {next : α → Machine σ → Outcome σ β → Prop}
  {r : Outcome σ β}

/-- Whether `r` follows from one of the outcomes `first`: it is one that `next` makes of the value,
or there is none and it stops as that does. -/
def Then (first : Outcome σ α → Prop) (next : α → Machine σ → Outcome σ β → Prop)
    (r : Outcome σ β) : Prop :=
  ∃ r₁, first r₁ ∧ r₁.Follows (fun a m => next a m r) fun u m => r = .error u m

/-- What follows a value is what is made of it. -/
theorem then_ok {a : α} :
  Then (fun r₁ => r₁ = .ok a m) next r ↔ next a m r
  := exists_eq_left

/-- What follows depends only on what is made of the values that there are. -/
theorem then_congr {next' : α → Machine σ → Outcome σ β → Prop}
    (h : ∀ a m', first (.ok a m') → (next a m' r ↔ next' a m' r)) :
  Then first next r ↔ Then first next' r
  := by
  apply exists_congr
  intro r₁
  apply and_congr_right
  intro hfirst
  cases r₁ with
  | ok a m' => exact h a m' hfirst
  | error u m' => rfl

/-- What follows depends only on what there is first. -/
theorem then_congr_left {first' : Outcome σ α → Prop} (h : ∀ r₁, first r₁ ↔ first' r₁) :
  Then first next r ↔ Then first' next r
  := exists_congr fun r₁ => and_congr_left fun _ => h r₁

/-- What follows from what follows. -/
theorem then_assoc {last : β → Machine σ → Outcome σ γ → Prop} {r : Outcome σ γ} :
  Then (Then first next) last r ↔ Then first (fun a m => Then (next a m) last) r
  := by
  constructor
  · rintro ⟨r₂, ⟨r₁, hfirst, hnext⟩, hlast⟩
    refine ⟨r₁, hfirst, ?_⟩
    cases r₁ with
    | ok a m' => exact ⟨r₂, hnext, hlast⟩
    | error u m' =>
        obtain rfl : r₂ = .error u m' := hnext
        exact hlast
  · rintro ⟨r₁, hfirst, hnext⟩
    cases r₁ with
    | ok a m' =>
        obtain ⟨r₂, hr₂, hlast⟩ := hnext
        exact ⟨r₂, ⟨_, hfirst, hr₂⟩, hlast⟩
    | error u m' => exact ⟨.error u m', ⟨_, hfirst, rfl⟩, hnext⟩

end Outcome

/-- A plan that ends with a task comes to what the task does. -/
theorem Task.ends_last {t : Task y} {r : Outcome σ y.Of} :
  (Plan.call t .ret).Ends setting m r ↔ t.Ends setting m r
  := by
  rw [Plan.ends_call]
  constructor
  · rintro ⟨r₁, ht, hfollows⟩
    cases r₁ with
    | ok v m' =>
        obtain rfl : r = .ok v m' := Plan.ends_ret.mp hfollows
        exact ht
    | error u m' =>
        obtain rfl : r = .error u m' := hfollows
        exact ht
  · intro ht
    refine ⟨r, ht, ?_⟩
    cases r with
    | ok v m' => exact Plan.ends_ret.mpr rfl
    | error u m' => rfl

end Scriptlet
