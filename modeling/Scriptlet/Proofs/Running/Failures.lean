import Scriptlet.Proofs.Running.Reporting

/-!
# Failures

The faults that the tasks of a run fail with: those that stop a task, and those that it hands on as
an error value.  No plan goes on behind a task that has failed.  So whichever task of an evaluation
fails, the evaluation ends with an error of the same cause.
-/

namespace Scriptlet

variable {σ : Type}

/-! ### Failures of tasks -/

/-- The fault of which an error value is made. -/
def Yield.fault? : (y : Yield) → y.Of → Option Fault
  | .value, .error f => some f
  | _, _ => none

/-- A fault of which an error value is made has the cause of that error. -/
theorem Yield.isError_of_fault? {y : Yield} {v : y.Of} {f : Fault} (h : y.fault? v = some f) :
  y.IsError f.cause v
  := by
  unfold fault? at h
  split at h
  · exact congrArg Fault.cause (Option.some.inj h)
  · cases h

namespace Outcome

/-- The fault that a task fails with if its run comes to an outcome, where an error value stands
for a fault only if the task settles. -/
def fault? (settles : Bool) {y : Yield} : Outcome σ y.Of → Option Fault
  | .ok v _ => if settles then y.fault? v else none
  | .error (.fault f) _ => some f
  | .error _ _ => none

/-- A task has failed with the cause of the fault that it fails with. -/
theorem failed_of_fault? {settles : Bool} {y : Yield} {r : Outcome σ y.Of} {f : Fault}
    (h : r.fault? settles = some f) :
  Failed settles f.cause r
  := by
  unfold fault? at h
  split at h
  · rw [Option.ite_none_right_eq_some] at h
    exact ⟨h.1, Yield.isError_of_fault? h.2⟩
  · exact congrArg Fault.cause (Option.some.inj h)
  · cases h

/-- The failures of a run from an outcome on that goes on with `next`. -/
def failures {α : Type} (r : Outcome σ α) (next : α → Machine σ → List Fault) : List Fault :=
  match r with
  | .ok a m => next a m
  | .error _ _ => []

/-- What fails behind an outcome fails in what goes on with its value. -/
theorem exists_of_mem_failures {α : Type} {r : Outcome σ α} {next : α → Machine σ → List Fault}
    {f : Fault} (hf : f ∈ r.failures next) :
  ∃ a m, r = .ok a m ∧ f ∈ next a m
  := by
  cases r with
  | ok a m => exact ⟨a, m, rfl, hf⟩
  | error u m => cases hf

end Outcome

/-- The failures of the tasks that are started in the run of a plan, in which tasks are run by
`start` and have the failures `inside`. -/
def Plan.failures (setting : Setting σ) (start : {y : Yield} → Task y → RunOn σ y.Of)
    (inside : {y : Yield} → Task y → Machine σ → List Fault) {α : Type} :
    Plan α → Machine σ → List Fault
  | ret _, _ | leave _, _ | stop _, _ => []
  | act a next, m =>
    Outcome.failures (a.run setting m) fun v m' => (next v).failures setting start inside m'
  | tick pos next, m =>
    Outcome.failures (Run.tick setting pos m) fun _ m' => next.failures setting start inside m'
  | room full next, m =>
    if setting.options.maxDepth ≤ m.control.depth then
      (full setting.options.maxDepth).failures setting start inside m
    else
      next.failures setting start inside m
  | call t next, m =>
    inside t m
      ++ Outcome.failures (start t m) fun v m' => (next v).failures setting start inside m'
  | within b t next, m =>
    inside t (b.opened m)
      ++ Outcome.failures (b.outcome m (start t (b.opened m))) fun v m' =>
        (next v).failures setting start inside m'

/-- The faults that a task and the tasks in its run fail with: whatever goes wrong in a run makes
the task fail in the plan of which it does. -/
def Task.failures (setting : Setting σ) (n : Nat) {y : Yield} (t : Task y) (m : Machine σ) :
    List Fault :=
  (match n with
    | 0 => []
    | n + 1 => (t.plan setting).failures setting (Task.run setting n) (Task.failures setting n) m)
  ++ (Outcome.fault? t.settles (t.run setting n m)).toList

variable {setting : Setting σ} {f : Fault}

/-- A plan that does nothing but fail starts no task that could. -/
theorem Plan.Reports.failures_eq {y : Yield} {settles : Bool} {cause : Cause} {p : Plan y.Of}
    (hp : p.Reports settles cause) (start : {y : Yield} → Task y → RunOn σ y.Of)
    (inside : {y : Yield} → Task y → Machine σ → List Fault) (m : Machine σ) :
  p.failures setting start inside m = []
  := by
  cases p
  case ret | stop => rfl
  all_goals exact hp.elim

/-- A plan fails with the cause that a task in its run fails with. -/
theorem Plan.Passes.failed_of_mem {start : {y : Yield} → Task y → RunOn σ y.Of}
    {inside : {y : Yield} → Task y → Machine σ → List Fault}
    (hstart : ∀ (z : Yield) (t : Task z) m, f ∈ inside t m →
      Outcome.Failed t.settles f.cause (start t m))
    {y : Yield} {settles : Bool} {p : Plan y.Of} (hp : p.Passes settles) {m : Machine σ}
    (hf : f ∈ p.failures setting start inside m) :
  Outcome.Failed settles f.cause (p.run setting start m)
  := by
  induction p generalizing m with
  | ret a => cases hf
  | leave v => cases hf
  | stop f => cases hf
  | act a next ih =>
      obtain ⟨v, m', hrun, hf⟩ := Outcome.exists_of_mem_failures hf
      rw [run_act, hrun]
      exact ih v (hp v) hf
  | tick pos next ih =>
      obtain ⟨v, m', hrun, hf⟩ := Outcome.exists_of_mem_failures hf
      rw [run_tick, hrun]
      exact ih hp hf
  | room full next ihfull ih =>
      rw [run_room]
      simp only [failures] at hf
      split
      · rename_i hfull
        rw [if_pos hfull, (hp.1 _).failures_eq] at hf
        cases hf
      · rename_i hfull
        rw [if_neg hfull] at hf
        exact ih hp.2 hf
  | call t next ih =>
      rcases List.mem_append.mp hf with hf | hf
      · exact hp.failed_call (hstart _ t m hf)
      · obtain ⟨v, m', hrun, hf⟩ := Outcome.exists_of_mem_failures hf
        rw [run_call, show start t m = .ok v m' from hrun]
        exact ih v (hp.1 v) hf
  | within b t next ih =>
      rcases List.mem_append.mp hf with hf | hf
      · exact hp.failed_within (hstart _ t _ hf)
      · obtain ⟨v, m', hrun, hf⟩ := Outcome.exists_of_mem_failures hf
        rw [run_within, hrun]
        exact ih v (hp.1 v) hf

/-- A task fails with the cause that a task in its run fails with. -/
theorem Task.failed_of_mem_failures (n : Nat) {y : Yield} (t : Task y) (m : Machine σ)
    (hf : f ∈ t.failures setting n m) :
  Outcome.Failed t.settles f.cause (t.run setting n m)
  := by
  induction n generalizing y t m with
  | zero =>
      rcases List.mem_append.mp hf with hf | hf
      · cases hf
      · exact Outcome.failed_of_fault? (Option.mem_toList.mp hf)
  | succ n ih =>
      rcases List.mem_append.mp hf with hf | hf
      · rw [run_succ]
        exact t.passes.failed_of_mem (fun z t' m' => ih t' m') hf
      · exact Outcome.failed_of_fault? (Option.mem_toList.mp hf)

/-! ### Failures of evaluations -/

/-- Whether an outcome is neither a fault nor a `return` that unwinds. -/
def Outcome.Landed {α : Type} : Outcome σ α → Prop
  | .error (.fault _) _ | .error (.ret _) _ => False
  | _ => True

/-- If neither a run nor what goes on with it is unwound, then both together are not. -/
theorem landed_andThen {α β : Type} {r : Outcome σ α} {next : α → Machine σ → Outcome σ β}
    (hr : r.Landed) (hnext : ∀ a m, (next a m).Landed) :
  (r.andThen next).Landed
  := by
  rcases r with ⟨a, m⟩ | ⟨u, m⟩
  · exact hnext a m
  · cases u
    all_goals exact hr

/-- What is run in a bracket that settles is not unwound. -/
theorem Bracket.landed_outcome {b : Bracket} (m : Machine σ) {r : Outcome σ Value}
    (h : b.settles ∨ r.Landed) :
  (b.outcome m r).Landed
  := by
  rcases r with ⟨v, m'⟩ | ⟨u, m'⟩
  · trivial
  · cases b
    case settled | program =>
      cases u
      all_goals trivial
    all_goals
      replace h := h.resolve_left Bool.false_ne_true
      cases u
      case fault | ret => exact h.elim
      all_goals trivial

namespace Task

variable (n : Nat) (scope : Scope) (m : Machine σ)

/-- No program is unwound: what it fails with is settled. -/
theorem landed_program (p : Program) :
  Outcome.Landed ((program p scope).run setting n m)
  := by
  cases n with
  | zero =>
      rw [run_zero]
      trivial
  | succ n =>
      rw [run_succ]
      simp only [plan]
      rw [Plan.run_within]
      refine landed_andThen (Bracket.landed_outcome m (.inl rfl)) fun v m' => ?_
      cases v
      all_goals trivial

/-- No text is unwound. -/
theorem landed_text (code file : String) :
  Outcome.Landed ((text code file scope).run setting n m)
  := by
  cases n with
  | zero =>
      rw [run_zero]
      trivial
  | succ n =>
      rw [run_succ]
      simp only [plan]
      rw [Plan.run_room]
      split
      · trivial
      · rcases Program.parse code file with ⟨p, _ | ⟨e, es⟩⟩
        · dsimp only
          rw [Plan.run_within]
          refine landed_andThen (Bracket.landed_outcome m (.inr ?_)) fun _ _ => trivial
          exact landed_program n scope _ p
        · trivial

/-- No import is unwound. -/
theorem landed_unit (name : String) :
  Outcome.Landed ((unit name scope).run setting n m)
  := by
  cases n with
  | zero =>
      rw [run_zero]
      trivial
  | succ n =>
      rw [run_succ]
      simp only [plan]
      rcases setting.unit? name with _ | ⟨key, code⟩
      · trivial
      · dsimp only
        rw [Plan.run_act]
        refine landed_andThen (r := (Action.isImported key).run setting m) trivial
          fun imported m' => ?_
        split
        · trivial
        · rw [Plan.run_within]
          refine landed_andThen (Bracket.landed_outcome m' (.inr ?_)) fun _ _ => trivial
          exact landed_text n scope _ code name

end Task

/-- No fault and no `return` unwinds out of an evaluation. -/
theorem Run.landed_evaluate (setting : Setting σ) (n : Nat) (program : Program) (scope : Scope)
    (m : Machine σ) :
  Outcome.Landed (Run.evaluate setting n program scope m)
  := by
  have hprogram (m : Machine σ) : Outcome.Landed
      ((Plan.call (.program program scope) .ret).run setting (Task.run setting n) m) := by
    rw [Plan.run_call]
    exact landed_andThen (Task.landed_program n scope m program) fun _ _ => trivial
  rw [Run.evaluate_apply]
  unfold Program.plan
  split
  · rw [Plan.run_call]
    refine landed_andThen (Task.landed_unit n scope _ _) fun v m' => ?_
    cases v
    case error => trivial
    all_goals exact hprogram m'
  · exact hprogram _

/-- The faults that the tasks of an evaluation fail with. -/
def Program.failures (setting : Setting σ) (n : Nat) (program : Program) (scope : Scope)
    (m : Machine σ) : List Fault :=
  (program.plan setting scope).failures setting (Task.run setting n) (Task.failures setting n)
    m.anew

/-- An evaluation ends with the fault that any task in it fails with, but for the position and the
file it is reported at. -/
theorem Run.evaluate_eq_error {n : Nat} {program : Program} {scope : Scope} {m : Machine σ}
    (hf : f ∈ program.failures setting n scope m) :
  ∃ f' m', Run.evaluate setting n program scope m = .ok (.error f') m' ∧ f'.cause = f.cause
  := by
  have hfailed : Outcome.Failed (y := .value) true f.cause
      (Run.evaluate setting n program scope m) := by
    rw [Run.evaluate_apply]
    exact (program.passes_plan scope).failed_of_mem
      (fun z t m' => t.failed_of_mem_failures n m') hf
  have hlanded := Run.landed_evaluate setting n program scope m
  rcases hr : Run.evaluate setting n program scope m with ⟨v, m'⟩ | ⟨u, m'⟩
  all_goals rw [hr] at hfailed hlanded
  · cases v
    case error f' => exact ⟨f', m', rfl, hfailed.2⟩
    all_goals exact hfailed.2.elim
  · cases u
    case fault => exact hlanded.elim
    all_goals exact hfailed.elim

end Scriptlet
