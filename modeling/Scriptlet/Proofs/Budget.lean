import Scriptlet.Proofs.Equality.Nesting
import Scriptlet.Proofs.Running.Failures
import Scriptlet.Proofs.Running.Halting

/-!
# Bounded runs

With a limit to the number of steps every evaluation ends, unless it comes to a comparison of two
values that has no answer.  And over all that is ever run on one machine no more rounds of loops and
bodies of functions are entered than the limit says: each of them is entered behind a step that was
counted for it, and a step that goes beyond the limit makes the run fail.
-/

namespace Scriptlet

variable {σ : Type}

variable {setting : Setting σ} {limit : Nat}

/-! ### Rounds and bodies -/

/-- How many rounds and bodies are entered at a moment. -/
def Moment.bodies : Moment σ → Nat
  | enter b _ => b.costs.toNat
  | _ => 0

/-- How many rounds and bodies are entered in some moments. -/
def bodies (l : List (Moment σ)) : Nat :=
  (l.map Moment.bodies).sum

/-- A moment adds the bodies that it begins. -/
theorem bodies_cons (x : Moment σ) (l : List (Moment σ)) :
  bodies (x :: l) = x.bodies + bodies l
  := by
  simp only [bodies, List.map_cons, List.sum_cons]

/-- The rounds and bodies of moments one after the other add up. -/
theorem bodies_append (l l' : List (Moment σ)) :
  bodies (l ++ l') = bodies l + bodies l'
  := by
  simp only [bodies, List.map_append, List.sum_append]

/-- The steps within the limit that have been counted. -/
def Machine.spent (m : Machine σ) (limit : Nat) : Nat :=
  min m.control.steps limit

/-- Whether at least `k` steps have been counted when one more is about to be. -/
def Moment.Covers (limit k : Nat) : Moment σ → Prop
  | tick m => k ≤ m.spent limit
  | _ => True

/-- Whether, `k` rounds and bodies having been entered, at least as many steps have been counted as
rounds and bodies have been entered whenever one more step is about to be counted. -/
def Affordable (limit : Nat) : Nat → List (Moment σ) → Prop
  | _, [] => True
  | k, x :: l => x.Covers limit k ∧ Affordable limit (k + x.bodies) l

/-- Moments one after the other are affordable if the first are, and the others behind them. -/
theorem affordable_append {k : Nat} {l l' : List (Moment σ)} :
  Affordable limit k (l ++ l') ↔ Affordable limit k l ∧ Affordable limit (k + bodies l) l'
  := by
  induction l generalizing k with
  | nil => simp [Affordable, bodies]
  | cons x l ih =>
      simp only [List.cons_append, Affordable, ih, bodies_cons, Nat.add_assoc, and_assoc]

/-- Whether the rounds and bodies of a run that ends with `m` are paid for by steps, `k` having been
entered before. -/
structure Afforded (limit k : Nat) (l : List (Moment σ)) (m : Machine σ) : Prop where
  moments : Affordable limit k l
  total : k + bodies l ≤ m.spent limit

/-- One more moment in front adds its round or its body to those that have been entered. -/
theorem Afforded.cons {k : Nat} {x : Moment σ} {l : List (Moment σ)} {m : Machine σ}
    (hx : x.Covers limit k) (h : Afforded limit (k + x.bodies) l m) :
  Afforded limit k (x :: l) m
  where
  moments := ⟨hx, h.moments⟩
  total := by
    rw [bodies_cons, ← Nat.add_assoc]
    exact h.total

/-- What is paid for one after the other is paid for. -/
theorem Afforded.append {k : Nat} {l l' : List (Moment σ)} {m m' : Machine σ}
    (h : Afforded limit k l m) (h' : Afforded limit (k + bodies l) l' m') :
  Afforded limit k (l ++ l') m'
  where
  moments := affordable_append.mpr ⟨h.moments, h'.moments⟩
  total := by
    rw [bodies_append, ← Nat.add_assoc]
    exact h'.total

/-- What follows an outcome. -/
theorem Afforded.andThen {α β : Type} {k : Nat} {r : Outcome σ α}
    {next : α → Machine σ → Outcome σ β}
    {moments : α → Machine σ → List (Moment σ)} (hk : k ≤ r.machine.spent limit)
    (hnext : ∀ a m, r = .ok a m → Afforded limit k (moments a m) (next a m).machine) :
  Afforded limit k (r.moments moments) (r.andThen next).machine
  := by
  refine .cons (x := .after r.machine) trivial ?_
  cases r with
  | ok a m => exact hnext a m rfl
  | error u m => exact ⟨trivial, hk⟩

/-! ### Steps -/

/-- Later no fewer steps within the limit have been counted. -/
theorem Machine.Level.spent_le {m m' : Machine σ} (h : m.Level m') :
  m.spent limit ≤ m'.spent limit
  := by
  have := h.steps
  unfold Machine.spent
  omega

/-- A step that does not fail is within the limit. -/
theorem Run.spent_tick {pos : Position} {m m' : Machine σ}
    (hlimit : setting.options.maxSteps = some limit) (h : Run.tick setting pos m = .ok () m') :
  m.spent limit + 1 ≤ m'.spent limit
  := by
  rw [Run.tick_apply, hlimit] at h
  dsimp only at h
  split at h
  · cases h
  · cases h
    unfold Machine.spent
    dsimp only
    omega

/-- Entering a bracket counts no step. -/
theorem Bracket.spent_opened (b : Bracket) (m : Machine σ) :
  (b.opened m).spent limit = m.spent limit
  := by
  unfold Machine.spent
  rw [b.steps_opened]

/-- Leaving a bracket counts no step. -/
theorem Bracket.spent_outcome (b : Bracket) (m : Machine σ) (r : Outcome σ Value) :
  (Outcome.machine (b.outcome m r)).spent limit = r.machine.spent limit
  := by
  rw [b.machine_outcome]
  cases b
  all_goals rfl

/-- Rounds and bodies are paid for in the run of an orderly plan: by induction on the plan, where
`g.paid` stands for a step that has been counted without any of them. -/
theorem Plan.Orderly.afforded (hlimit : setting.options.maxSteps = some limit)
    {start : {y : Yield} → Task y → RunOn σ y.Of}
    {inside : {y : Yield} → Task y → Machine σ → List (Moment σ)}
    (hstart : ∀ (y : Yield) (t : Task y) m k, k ≤ m.spent limit →
      Afforded limit k (inside t m) (Outcome.machine (start t m)))
    {z : Yield} {t : Task z} {g : Progress} {α : Type} {p : Plan α} (hp : p.Orderly t g)
    {m : Machine σ} {k : Nat} (hk : k + g.paid.toNat ≤ m.spent limit) :
  Afforded limit k (p.moments setting start inside m)
    (Outcome.machine (p.run setting start m))
  := by
  have hle : k ≤ m.spent limit := Nat.le_trans (Nat.le_add_right k _) hk
  induction p generalizing g m k with
  | ret a => exact ⟨trivial, hle⟩
  | leave v => exact ⟨trivial, hle⟩
  | stop f => exact ⟨trivial, hle⟩
  | act a next ih =>
      have hlevel := Machine.Level.of_eq ((a.quiet_run setting).control m)
      have hspent : m.spent limit ≤ (Outcome.machine (a.run setting m)).spent limit :=
        hlevel.spent_le
      rw [run_act]
      apply Afforded.andThen (Nat.le_trans hle hspent)
      intro v m' hrun
      rw [hrun] at hspent
      exact ih v (hp v) (Nat.le_trans hk hspent) (Nat.le_trans hle hspent)
  | tick pos next ih =>
      have hspent : m.spent limit ≤ (Outcome.machine (Run.tick setting pos m)).spent limit :=
        (Run.level_tick setting pos m).spent_le
      rw [run_tick]
      refine .cons (x := .tick m) hle ?_
      apply Afforded.andThen (Nat.le_trans hle hspent)
      intro _ m' hrun
      have hpaid := Nat.le_trans (Nat.succ_le_succ hle) (Run.spent_tick hlimit hrun)
      exact ih hp hpaid (Nat.le_of_succ_le hpaid)
  | room full next ihfull ih =>
      rw [run_room]
      refine .cons (x := .room m) trivial ?_
      split
      · exact ihfull _ (hp.1 _) hk hle
      · exact ih hp.2 hk hle
  | call t' next ih =>
      rw [run_call]
      have ht := hstart _ t' m k hle
      apply ht.append
      apply Afforded.andThen ht.total
      intro v m' hrun
      have htotal := ht.total
      rw [show start t' m = .ok v m' from hrun] at htotal
      exact ih v (hp.2 v) htotal htotal
  | within b t' next ih =>
      obtain ⟨-, hcosts, -, hnext⟩ := hp
      -- What a bracket costs has been paid by the step that was counted in front of it.
      have hopened : k + b.costs.toNat ≤ (b.opened m).spent limit := by
        rw [b.spent_opened]
        cases hb : b.costs with
        | false => exact hle
        | true =>
            rw [hcosts hb] at hk
            exact hk
      have hinner := hstart _ t' _ _ hopened
      have hafter := hinner.total
      rw [← b.spent_outcome m] at hafter
      rw [run_within]
      refine .cons (x := .enter b (b.opened m)) trivial ?_
      apply hinner.append
      apply Afforded.andThen hafter
      intro v m' hrun
      rw [hrun] at hafter
      exact ih v (hnext v) hafter hafter

/-- In the run of every task rounds and bodies are paid for by counted steps: by induction on the
fuel. -/
theorem Task.afforded (hlimit : setting.options.maxSteps = some limit) (n : Nat) {y : Yield}
    (t : Task y) {m : Machine σ} {k : Nat} (hk : k ≤ m.spent limit) :
  Afforded limit k (t.moments setting n m) (Outcome.machine (t.run setting n m))
  := by
  induction n generalizing y t m k with
  | zero =>
      rw [run_zero]
      exact .cons (x := .start t m) trivial ⟨trivial, hk⟩
  | succ n ih =>
      rw [run_succ]
      refine .cons (x := .start t m) trivial ?_
      exact t.orderly.afforded hlimit (fun _ t' m' k' hk' => ih t' hk') hk

/-! ### The life of an interpreter -/

/-- What can have happened in the life of an interpreter, and where it stands then.  Between two
tasks the heap, the scopes and the streams may change in any way. -/
inductive Life (setting : Setting σ) : List (Moment σ) → Control → Prop where
  | initial : Life setting [] .initial
  | run {l : List (Moment σ)} {y : Yield} (t : Task y) (n : Nat) (m : Machine σ) :
      Life setting l m.control →
      Life setting (l ++ t.moments setting n m) (Outcome.machine (t.run setting n m)).control

/-- In the whole life of an interpreter there are no more rounds and bodies than counted steps
within the limit. -/
theorem Life.bodies_le (hlimit : setting.options.maxSteps = some limit) {l : List (Moment σ)}
    {c : Control} (h : Life setting l c) :
  bodies l ≤ min c.steps limit
  := by
  induction h with
  | initial => exact Nat.zero_le _
  | run t n m _ ih =>
      rw [bodies_append]
      exact (t.afforded hlimit n ih).total

/-- A step that is about to be counted after as many rounds and bodies as there may be goes beyond
the limit. -/
theorem Life.hits (hlimit : setting.options.maxSteps = some limit) {l : List (Moment σ)}
    {m : Machine σ} (h : Life setting l m.control) {y : Yield} (t : Task y) (n : Nat)
    {before after : List (Moment σ)} {m' : Machine σ}
    (ht : t.moments setting n m = before ++ .tick m' :: after)
    (hbodies : limit ≤ bodies l + bodies before) :
  (Moment.tick m').Hits setting (.budgetExceeded limit)
  := by
  have hmoments := (t.afforded hlimit n (h.bodies_le hlimit)).moments
  rw [ht, affordable_append] at hmoments
  have hcovers : bodies l + bodies before ≤ m'.spent limit := hmoments.2.1
  unfold Machine.spent at hcovers
  exact ⟨limit, hlimit, by omega, rfl⟩

/-! ### How an evaluation ends -/

/-- Whether two values cannot be compared if that is why the run has stopped. -/
def Outcome.Answered {α : Type} (r : Outcome σ α) : Prop :=
  ∀ m, r = .error .endless m → m.Incomparable

/-- A run stops at a comparison only if it has no answer. -/
def answering : Contract σ where
  Given _ := True
  Pre _ _ := True
  Post _ _ r := r.Answered
  Good _ := True

/-- What follows a run that stops only at a comparison without an answer does so for the same
reason. -/
theorem follows_answered {α β : Type} {r : Outcome σ α} {P : α → Machine σ → Prop}
    (hr : r.Answered) (hP : ∀ a m, P a m) :
  r.Follows P fun u m => Outcome.Answered (.error u m : Outcome σ β)
  := by
  rcases r with ⟨a, m⟩ | ⟨u, m⟩
  · exact hP a m
  · rintro _ ⟨⟩
    exact hr _ rfl

/-- A bracket stops no run at a comparison. -/
theorem Bracket.answered_outcome (b : Bracket) (m : Machine σ) {r : Outcome σ Value}
    (hr : r.Answered) :
  (b.outcome m r).Answered
  := by
  rcases r with ⟨v, m'⟩ | ⟨u, m'⟩
  · rintro _ ⟨⟩
  · cases u
    case endless =>
      have hm' := hr m' rfl
      intro m₁ h
      cases b
      all_goals
        cases h
        exact hm'
    all_goals
      intro m₁ h
      cases b
      all_goals cases h

/-- Every plan stops only at a comparison without an answer, if its tasks do. -/
theorem Plan.obeys_answering {α : Type} (p : Plan α) (m : Machine σ) :
  p.Obeys answering setting Outcome.Answered m
  := by
  induction p generalizing m with
  | ret a => rintro _ ⟨⟩
  | leave v => rintro _ ⟨⟩
  | stop f => rintro _ ⟨⟩
  | act a next ih =>
      refine ⟨trivial, follows_answered ?_ ih⟩
      intro m' h
      rcases (a.quiet_run setting).stops h with ⟨f, hf⟩ | ⟨-, hm'⟩
      · cases hf
      · exact hm'
  | tick pos next ih =>
      refine ⟨trivial, trivial, follows_answered ?_ fun _ => ih⟩
      intro m' h
      rw [Run.tick_apply] at h
      split at h
      · cases h
      · dsimp only at h
        split at h
        all_goals cases h
  | room full next ihfull ih =>
      refine ⟨trivial, ?_⟩
      split
      · exact ihfull _ m
      · exact ih m
  | call t next ih => exact ⟨fun _ => trivial, fun r hr => ⟨trivial, follows_answered hr ih⟩⟩
  | within b t next ih =>
      exact ⟨trivial, fun _ => trivial, fun r hr =>
        ⟨trivial, follows_answered (b.answered_outcome m hr) ih⟩⟩

/-- All tasks stop only at a comparison without an answer. -/
theorem answering_kept :
  answering.Kept setting
  where
  exhausted _ _ _ := by rintro _ ⟨⟩
  start _ _ _ := trivial
  plan t m _ _ := (t.plan setting).obeys_answering m

namespace Program

variable (program : Program) (scope : Scope)

/-- With a limit to the number of steps the plan of a program halts. -/
theorem halts_plan (hlimit : setting.options.maxSteps = some limit) {m : Machine σ}
    (hm : m.control.depth ≤ setting.options.maxDepth) :
  (program.plan setting scope).Halts setting m
  := by
  unfold plan
  split
  · refine ⟨Task.halts hlimit _ m hm, fun n v m' hrun => ?_⟩
    have hlevel := Task.level_run setting n (.unit Library.name scope) m
    rw [hrun] at hlevel
    have hm' : m'.control.depth ≤ setting.options.maxDepth := hlevel.depth_eq ▸ hm
    cases v
    case error => trivial
    all_goals exact ⟨Task.halts hlimit _ m' hm', fun _ _ _ _ => trivial⟩
  · exact ⟨Task.halts hlimit _ m hm, fun _ _ _ _ => trivial⟩

/-- The plan of a program stops only at a comparison without an answer. -/
theorem answered_plan (n : Nat) (m : Machine σ) :
  Outcome.Answered ((program.plan setting scope).run setting (Task.run setting n) m)
  := by
  refine (Contract.KeptWithin.plan (answering_kept.run n) _ m (Plan.obeys_answering _ m) ?_).1
  exact fun _ _ _ _ => trivial

end Program

/-- With a limit to the number of steps an evaluation ends with a value, or it comes to a
comparison that has no answer. -/
theorem Run.exists_evaluate (hlimit : setting.options.maxSteps = some limit) (program : Program)
    (scope : Scope) (m : Machine σ) :
  ∃ n r, (∀ k, n ≤ k → Run.evaluate setting k program scope m = r)
    ∧ ((∃ v m', r = .ok v m') ∨ ∃ m', r = .error .endless m' ∧ m'.Incomparable)
  := by
  have hdepth : m.anew.control.depth ≤ setting.options.maxDepth := Nat.zero_le _
  obtain ⟨n, hn⟩ := (program.halts_plan scope hlimit hdepth).exists_fuel
  use n, (program.plan setting scope).run setting (Task.run setting n) m.anew
  constructor
  · intro k hk
    rw [evaluate_apply]
    exact Plan.run_congr (fun t m h => Task.run_mono hk h) _ _ (hn n (Nat.le_refl n))
  · have hfinished := hn n (Nat.le_refl n)
    have hlanded := Run.landed_evaluate setting n program scope m
    rw [evaluate_apply] at hlanded
    have hanswered : Outcome.Answered
        ((program.plan setting scope).run setting (Task.run setting n) m.anew) :=
      program.answered_plan scope n m.anew
    generalize (program.plan setting scope).run setting (Task.run setting n) m.anew = r at *
    rcases r with ⟨v, m'⟩ | ⟨u, m'⟩
    · exact .inl ⟨v, m', rfl⟩
    · cases u
      case endless => exact .inr ⟨m', rfl, hanswered m' rfl⟩
      case exhausted => exact absurd trivial hfinished
      all_goals exact hlanded.elim

/-- With a limit to the number of steps every evaluation ends: from some fuel on it comes to the
same value, unless it stops at a comparison of two values that has no answer.  In the whole life of
an interpreter no more rounds of loops and bodies of functions are entered than the limit says, and
a task that is about to have one more step counted for another one fails because of the limit. -/
theorem Setting.bounded (hlimit : setting.options.maxSteps = some limit) :
  (∀ program scope m, ∃ n r, (∀ k, n ≤ k → Run.evaluate setting k program scope m = r)
    ∧ ((∃ v m', r = .ok v m')
      ∨ ∃ m' a b, r = .error .endless m' ∧ ∀ k, m'.heap.equalWithin k [] a b = none))
  ∧ ∀ l c, Life setting l c → bodies l ≤ limit
    ∧ ∀ y (t : Task y) n m, m.control = c →
      ∀ before m' after, t.moments setting n m = before ++ .tick m' :: after →
      limit ≤ bodies l + bodies before →
      Outcome.Failed t.settles (.budgetExceeded limit) (t.run setting n m)
      ∧ (Cause.budgetExceeded limit).message = "Step budget of " ++ toString limit ++ " exceeded"
  := by
  constructor
  · intro program scope m
    obtain ⟨n, r, hr, hvalue | ⟨m', hendless, a, b, hab⟩⟩ :=
      Run.exists_evaluate hlimit program scope m
    · exact ⟨n, r, hr, .inl hvalue⟩
    · refine ⟨n, r, hr, .inr ⟨m', a, b, hendless, fun k => ?_⟩⟩
      rw [Option.eq_none_iff_forall_ne_some]
      intro found hfound
      rw [Heap.equal?_eq_some_iff.mpr ⟨k, hfound⟩] at hab
      cases hab
  · intro l c hlife
    refine ⟨Nat.le_trans (hlife.bodies_le hlimit) (Nat.min_le_right _ _), ?_⟩
    rintro y t n m rfl before m' after ht hbodies
    refine ⟨Task.failed_of_hit n t m ⟨.tick m', ?_, hlife.hits hlimit t n ht hbodies⟩, rfl⟩
    rw [ht]
    exact List.mem_append_right _ List.mem_cons_self

/-- Whether one more step is about to be counted at a moment. -/
def Moment.counts : Moment σ → Bool
  | tick _ => true
  | _ => false

/-- Where a counted step is found among moments, they are split there. -/
theorem Moment.exists_of_counts {l : List (Moment σ)} {i : Nat} (h : (l[i]?).any counts = true) :
  ∃ m, l = l.take i ++ .tick m :: l.drop (i + 1)
  := by
  obtain ⟨x, hx, hcounts⟩ := (Option.any_eq_true _ _).mp h
  obtain ⟨hi, rfl⟩ := List.getElem?_eq_some_iff.mp hx
  have hsplit : l = l.take i ++ l[i] :: l.drop (i + 1) := by
    rw [List.cons_getElem_drop_succ, List.take_append_drop]
  generalize l[i] = y at hcounts hsplit
  cases y with
  | tick m => exact ⟨m, hsplit⟩
  | _ => cases hcounts

/-- A loop whose rounds run a text that calls a function.  The second round is entered, and its call
is the fourth step where there may be three. -/
theorem Setting.bounded_loop :
  let setting : Setting :=
    ⟨{ Options.standard with maxSteps := some 3, allowEval := true }, Device.standard, .empty⟩
  let text := "let f = func() \x7b 1 \x7d; "
    ++ "while (true) \x7b __builtin_forEach(['1', 'f()'], eval); \x7d"
  let program := (Program.parse text "main.tiny").1
  let m : Machine := { Machine.initial (.ofLines []) with scopes := ⟨#[[]]⟩ }
  let t : Task .value := .program program [0]
  setting.options.maxSteps = some 3
  ∧ (∃ n r, (∀ k, n ≤ k → Run.evaluate setting k program [0] m = r)
    ∧ ((∃ v m', r = .ok v m')
      ∨ ∃ m' a b, r = .error .endless m' ∧ ∀ k, m'.heap.equalWithin k [] a b = none))
  ∧ (∀ l c, Life setting l c → bodies l ≤ 3)
  ∧ ∃ before m' after, t.moments setting 60 m = before ++ .tick m' :: after
    ∧ bodies before = 3
    ∧ Outcome.Failed t.settles (.budgetExceeded 3) (t.run setting 60 m)
    ∧ (Cause.budgetExceeded 3).message = "Step budget of 3 exceeded"
  := by
  intro setting text program m t
  have hlimit : setting.options.maxSteps = some 3 := rfl
  obtain ⟨hends, hlife⟩ := Setting.bounded hlimit
  have hbodies : bodies ((t.moments setting 60 m).take 219) = 3 := by decide +kernel
  have hcounts : ((t.moments setting 60 m)[219]?).any Moment.counts = true := by decide +kernel
  obtain ⟨m', hm'⟩ := Moment.exists_of_counts hcounts
  obtain ⟨hfailed, hmessage⟩ :=
    (hlife [] .initial .initial).2 _ t 60 m rfl _ m' _ hm' (by rw [hbodies]; decide)
  exact ⟨hlimit, hends program [0] m, fun l c h => (hlife l c h).1, _, m', _, hm', hbodies, hfailed,
    hmessage⟩

end Scriptlet
