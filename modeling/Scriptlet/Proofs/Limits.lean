import Scriptlet.Proofs.Balance
import Scriptlet.Proofs.Running.Alike
import Scriptlet.Proofs.Running.Reporting

/-!
# Runs within their limits

A run that hits no limit does the same under higher limits.  The two runs go side by side: they
are on machines that agree in all but the number of steps, of which the one under the higher limits
never has more, for it may have nothing to count.  Where the first one hits a limit, it fails, and
nothing takes the failure back.
-/

namespace Scriptlet

variable {σ : Type}

/-! ### Settings with other limits -/

/-- The setting with other limits. -/
def Setting.limited (setting : Setting σ) (maxSteps : Option Nat) (maxDepth : Nat) : Setting σ :=
  { setting with options := { setting.options with maxSteps, maxDepth } }

/-- A pair of limits and another one that is no lower; no limit to the steps is the highest one. -/
structure Limits where
  steps : Option Nat
  depth : Nat
  moreSteps : Option Nat
  moreDepth : Nat
  steps_le : ∀ n, moreSteps = some n → ∃ k ≤ n, steps = some k
  depth_le : depth ≤ moreDepth

variable {setting : Setting σ}

/-- Settings that differ in their limits act alike. -/
theorem Setting.alike_limited (setting : Setting σ) (maxSteps : Option Nat) (maxDepth : Nat) :
  setting.Alike (setting.limited maxSteps maxDepth)
  := ⟨⟨rfl, rfl⟩, rfl, rfl⟩

/-- No action depends on the limits. -/
theorem Action.run_limited (maxSteps : Option Nat) (maxDepth : Nat) (a : Action) :
  a.run (setting.limited maxSteps maxDepth) = a.run setting
  := (setting.alike_limited maxSteps maxDepth).run_action a

/-- No plan depends on the limits. -/
theorem Task.plan_limited (maxSteps : Option Nat) (maxDepth : Nat) {y : Yield} (t : Task y) :
  t.plan (setting.limited maxSteps maxDepth) = t.plan setting
  := (setting.alike_limited maxSteps maxDepth).plan_task t

/-! ### Outcomes side by side -/

namespace Outcome

variable {α β : Type}

/-- Whether `r'` is the same as `r` but for the steps, of which it has no more. -/
def Trails (r r' : Outcome σ α) : Prop :=
  ∃ k ≤ r.machine.control.steps, r' = r.atSteps k

/-- What goes on side by side behind outcomes side by side comes to such. -/
theorem Trails.andThen {r r' : Outcome σ α} {next next' : α → Machine σ → Outcome σ β}
    (hr : r.Trails r')
    (hnext : ∀ a m k, r = .ok a m → k ≤ m.control.steps →
      (next a m).Trails (next' a (m.atSteps k))) :
  (r.andThen next).Trails (r'.andThen next')
  := by
  obtain ⟨k, hk, rfl⟩ := hr
  cases r with
  | ok a m => exact hnext a m k rfl hk
  | error u m => exact ⟨k, hk, rfl⟩

end Outcome

/-- What a bracket makes of an outcome does not depend on the counts of steps. -/
theorem Bracket.outcome_atSteps (b : Bracket) (m : Machine σ) (r : Outcome σ Value) (k k' : Nat) :
  b.outcome (m.atSteps k) (r.atSteps k') = (b.outcome m r).atSteps k'
  := by
  rcases r with ⟨v, m'⟩ | ⟨u, m'⟩
  · cases b
    all_goals rfl
  · cases u
    all_goals
      cases b
      all_goals rfl

/-- Entering a bracket does not depend on the count of steps. -/
theorem Bracket.opened_atSteps (b : Bracket) (m : Machine σ) (k : Nat) :
  b.opened (m.atSteps k) = (b.opened m).atSteps k
  := by
  cases b
  all_goals rfl

/-- A bracket keeps outcomes side by side. -/
theorem Bracket.trails_outcome (b : Bracket) (m : Machine σ) (k : Nat) {r r' : Outcome σ Value}
    (hr : r.Trails r') :
  (b.outcome m r).Trails (b.outcome (m.atSteps k) r')
  := by
  obtain ⟨k', hk', rfl⟩ := hr
  refine ⟨k', ?_, b.outcome_atSteps m r k k'⟩
  rw [b.machine_outcome]
  cases b
  all_goals exact hk'

/-- A quiet run comes to the same with fewer counted steps. -/
theorem Quiet.trails {α : Type} {r : RunOn σ α} (hr : Quiet r) {m : Machine σ} {k : Nat}
    (hk : k ≤ m.control.steps) :
  Outcome.Trails (r m) (r (m.atSteps k))
  := by
  refine ⟨k, ?_, hr.steps m k⟩
  rw [hr.control m]
  exact hk

namespace Limits

variable (limits : Limits) (setting : Setting σ)

/-- The setting with the lower limits. -/
def lower : Setting σ :=
  setting.limited limits.steps limits.depth

/-- The setting with the higher limits. -/
def higher : Setting σ :=
  setting.limited limits.moreSteps limits.moreDepth

/-- Whether no limit of the lower ones is hit. -/
def Clear (l : List (Moment σ)) : Prop :=
  ∀ x ∈ l, ∀ cause, ¬ x.Hits (limits.lower setting) cause

variable {limits setting}

/-- A step that is within the lower limit is within the higher one. -/
theorem trails_tick {pos : Position} {m : Machine σ} {k : Nat} (hk : k ≤ m.control.steps)
    (hclear : ∀ cause, ¬ (Moment.tick m).Hits (limits.lower setting) cause) :
  Outcome.Trails (Run.tick (limits.lower setting) pos m)
    (Run.tick (limits.higher setting) pos (m.atSteps k))
  := by
  have hroom (n : Nat) (hn : limits.steps = some n) : m.control.steps < n := by
    apply Nat.lt_of_not_le
    intro hle
    exact hclear _ ⟨n, hn, hle, rfl⟩
  have hlower : (limits.lower setting).options.maxSteps = limits.steps := rfl
  have hhigher : (limits.higher setting).options.maxSteps = limits.moreSteps := rfl
  rw [Run.tick_apply, Run.tick_apply, hlower, hhigher]
  cases hmore : limits.moreSteps with
  | none =>
      cases hsteps : limits.steps with
      | none => exact ⟨k, hk, rfl⟩
      | some n =>
          dsimp only
          rw [if_neg (Nat.not_lt_of_le (hroom n hsteps))]
          exact ⟨k, Nat.le_succ_of_le hk, rfl⟩
  | some n' =>
      obtain ⟨n, hle, hsteps⟩ := limits.steps_le n' hmore
      have hn := hroom n hsteps
      have hk' : ¬ n' < (m.atSteps k).control.steps + 1 :=
        Nat.not_lt_of_le (Nat.le_trans (Nat.succ_le_succ hk) (Nat.le_trans hn hle))
      rw [hsteps]
      dsimp only
      rw [if_neg (Nat.not_lt_of_le hn), if_neg hk']
      exact ⟨k + 1, Nat.succ_le_succ hk, rfl⟩

/-- If no limit is hit in some moments, then none is at the first and behind it. -/
theorem Clear.cons {x : Moment σ} {l : List (Moment σ)} (h : limits.Clear setting (x :: l)) :
  (∀ cause, ¬ x.Hits (limits.lower setting) cause) ∧ limits.Clear setting l
  := List.forall_mem_cons.mp h

/-- If no limit is hit in some moments, then none is in each part of them. -/
theorem Clear.append {l l' : List (Moment σ)} (h : limits.Clear setting (l ++ l')) :
  limits.Clear setting l ∧ limits.Clear setting l'
  := List.forall_mem_append.mp h

/-- What follows the outcome of a run that hits no limit hits none. -/
theorem Clear.behind {α : Type} {r : Outcome σ α} {next : α → Machine σ → List (Moment σ)}
    (h : limits.Clear setting (r.moments next)) {a : α} {m : Machine σ} (hr : r = .ok a m) :
  limits.Clear setting (next a m)
  := by
  subst hr
  exact h.cons.2

/-- Two runs of a plan go side by side if those of its tasks do: by induction on the plan. -/
theorem trails_plan {start start' : {y : Yield} → Task y → RunOn σ y.Of}
    {inside : {y : Yield} → Task y → Machine σ → List (Moment σ)}
    (hstart : ∀ (y : Yield) (t : Task y) m k, k ≤ m.control.steps →
      limits.Clear setting (inside t m) → Outcome.Trails (start t m) (start' t (m.atSteps k)))
    {α : Type} (p : Plan α) {m : Machine σ} {k : Nat} (hk : k ≤ m.control.steps)
    (hclear : limits.Clear setting (p.moments (limits.lower setting) start inside m)) :
  Outcome.Trails (p.run (limits.lower setting) start m)
    (p.run (limits.higher setting) start' (m.atSteps k))
  := by
  induction p generalizing m k with
  | ret a => exact ⟨k, hk, rfl⟩
  | leave v => exact ⟨k, hk, rfl⟩
  | stop f => exact ⟨k, hk, rfl⟩
  | act a next ih =>
      rw [Plan.run_act, Plan.run_act]
      have hact := (a.quiet_run (limits.lower setting)).trails hk
      rw [lower, a.run_limited] at hact
      rw [lower, higher, a.run_limited, a.run_limited]
      apply hact.andThen
      intro v m' k' hrun hk'
      exact ih v hk' (Clear.behind hclear ((a.run_limited _ _).symm ▸ hrun))
  | tick pos next ih =>
      rw [Plan.run_tick, Plan.run_tick]
      obtain ⟨hhits, hclear⟩ := hclear.cons
      apply (trails_tick hk hhits).andThen
      intro _ m' k' hrun hk'
      exact ih hk' (hclear.behind hrun)
  | room full next ihfull ih =>
      rw [Plan.run_room, Plan.run_room]
      obtain ⟨hhits, hclear⟩ := hclear.cons
      -- The lower limit is not hit, so there is room below the higher one, too.
      have hroom : ¬ (limits.lower setting).options.maxDepth ≤ m.control.depth := by
        intro hfull
        exact hhits _ ⟨hfull, rfl⟩
      have hmore : ¬ (limits.higher setting).options.maxDepth ≤ (m.atSteps k).control.depth := by
        intro hfull
        exact hroom (Nat.le_trans limits.depth_le hfull)
      rw [if_neg hroom] at hclear ⊢
      rw [if_neg hmore]
      exact ih hk hclear
  | call t next ih =>
      rw [Plan.run_call, Plan.run_call]
      obtain ⟨hinside, hclear⟩ := hclear.append
      apply (hstart _ t m k hk hinside).andThen
      intro v m' k' hrun hk'
      exact ih v hk' (hclear.behind hrun)
  | within b t next ih =>
      rw [Plan.run_within, Plan.run_within]
      obtain ⟨hinside, hclear⟩ := hclear.cons.2.append
      have hopened : k ≤ (b.opened m).control.steps := by
        rw [b.steps_opened]
        exact hk
      have hinner := hstart _ t _ k hopened hinside
      rw [← b.opened_atSteps] at hinner
      apply (b.trails_outcome m k hinner).andThen
      intro v m' k' hrun hk'
      exact ih v hk' (hclear.behind hrun)

/-- A task that hits no lower limit comes to the same under the higher limits: by induction on the
fuel. -/
theorem trails_task (n : Nat) {y : Yield} (t : Task y) {m : Machine σ} {k : Nat}
    (hk : k ≤ m.control.steps)
    (hclear : limits.Clear setting (t.moments (limits.lower setting) n m)) :
  Outcome.Trails (t.run (limits.lower setting) n m)
    (t.run (limits.higher setting) n (m.atSteps k))
  := by
  induction n generalizing y t m k with
  | zero =>
      rw [Task.run_zero, Task.run_zero]
      exact ⟨k, hk, rfl⟩
  | succ n ih =>
      rw [Task.run_succ, Task.run_succ]
      have hplan : t.plan (limits.higher setting) = t.plan (limits.lower setting) :=
        (t.plan_limited _ _).trans (t.plan_limited _ _).symm
      rw [hplan]
      exact trails_plan (fun _ t' m' k' hk' => ih t' hk') _ hk hclear.cons.2

end Limits

/-! ### Evaluations -/

/-- Whether a value is not an error that says that a limit has been hit. -/
def Value.Unlimited (v : Value) : Prop :=
  ∀ f, v = .error f → ∀ limit : Nat,
    f.message ≠ "Step budget of " ++ toString limit ++ " exceeded"
    ∧ f.message ≠ "Maximum call depth of " ++ toString limit ++ " exceeded"

/-- The cause of a limit that is hit is worded as one of the two limits. -/
theorem Moment.Hits.message {x : Moment σ} {cause : Cause} (h : x.Hits setting cause) :
  ∃ limit : Nat, cause.message = "Step budget of " ++ toString limit ++ " exceeded"
    ∨ cause.message = "Maximum call depth of " ++ toString limit ++ " exceeded"
  := by
  cases x
  case tick =>
    obtain ⟨limit, -, -, rfl⟩ := h
    exact ⟨limit, .inl rfl⟩
  case room =>
    obtain ⟨-, rfl⟩ := h
    exact ⟨_, .inr rfl⟩
  all_goals exact h.elim

/-- An evaluation that ends with a value other than an error about a limit ends with the same value
under higher limits, with the same values in the heap and in the scopes, and with the same texts
read and written. -/
theorem Run.evaluate_limited (limits : Limits) (setting : Setting σ) {n : Nat} {program : Program}
    {scope : Scope} {m m₁ : Machine σ} {v : Value}
    (hrun : Run.evaluate (limits.lower setting) n program scope m = .ok v m₁)
    (hv : v.Unlimited) :
  ∃ m₂, Run.evaluate (limits.higher setting) n program scope m = .ok v m₂
  ∧ m₂.heap = m₁.heap ∧ m₂.scopes = m₁.scopes ∧ m₂.streams = m₁.streams
  := by
  rw [evaluate_apply] at hrun
  have hclear : limits.Clear setting ((program.plan (limits.lower setting) scope).moments
      (limits.lower setting) (Task.run (limits.lower setting) n)
      (Task.moments (limits.lower setting) n) m.anew) := by
    intro x hx cause hhit
    have hfailed := (program.passes_plan scope).failed
      (fun z t m => Task.failed_of_hit n t m) hx hhit
    rw [hrun] at hfailed
    obtain ⟨limit, hmessage⟩ := hhit.message
    cases v
    case error f =>
      obtain rfl : f.cause = cause := hfailed.2
      obtain ⟨hsteps, hdepth⟩ := hv f rfl limit
      exact hmessage.elim hsteps hdepth
    all_goals exact hfailed.2.elim
  have htrails := Limits.trails_plan
    (fun _ t m k hk => Limits.trails_task n t hk) _ (Nat.zero_le m.anew.control.steps) hclear
  rw [hrun] at htrails
  obtain ⟨k, -, heq⟩ := htrails
  refine ⟨m₁.atSteps k, ?_, rfl, rfl, rfl⟩
  rw [evaluate_apply]
  exact heq

/-- Two rounds of a loop and three nested calls, which are all that the lower limits allow. -/
theorem Run.evaluate_limited_calls :
  let limits : Limits := ⟨some 5, 3, none, 10, nofun, by decide⟩
  let setting : Setting := ⟨{ Options.standard with useLibrary := false }, Device.standard, .empty⟩
  let program := (Program.parse ("func f(n) \x7b n < 1 || f(n - 1) \x7d let i = 0;"
    ++ "while (i < 2) \x7b i = i + 1 \x7d f(2)") "main.tiny").1
  let m : Machine := { Machine.initial (.ofLines []) with scopes := ⟨#[[]]⟩ }
  ∃ m₁, Run.evaluate (limits.lower setting) 40 program [0] m = .ok (.bool true) m₁
  ∧ (Value.bool true).Unlimited
  ∧ ∃ m₂, Run.evaluate (limits.higher setting) 40 program [0] m = .ok (.bool true) m₂
    ∧ m₂.heap = m₁.heap ∧ m₂.scopes = m₁.scopes ∧ m₂.streams = m₁.streams
  := by
  intro limits setting program m
  have htrue : Outcome.isTrue (Run.evaluate (limits.lower setting) 40 program [0] m) = true := by
    decide +kernel
  obtain ⟨m₁, hrun⟩ := Outcome.exists_of_isTrue htrue
  have hv : (Value.bool true).Unlimited := by
    intro f hf
    cases hf
  exact ⟨m₁, hrun, hv, Run.evaluate_limited limits setting hrun hv⟩

end Scriptlet
