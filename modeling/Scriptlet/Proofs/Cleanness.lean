import Scriptlet.Proofs.Provenance
import Scriptlet.Proofs.Running.Ending
import Scriptlet.Proofs.Running.Failures

/-!
# Cleanness

Errors never become data.  An evaluation from a machine that holds no error keeps it so at every
moment, no statement and no expression comes to an error value, and a fault ends the evaluation
wherever in it a task fails.
-/

namespace Scriptlet

variable {σ : Type}

/-! ### Clean machines -/

/-- Whether no error is in a scope, an array, a hash or a frame. -/
structure Machine.Clean (m : Machine σ) : Prop where
  scopes : m.scopes.Clean
  arrays : ∀ es ∈ m.heap.arrays, ∀ v ∈ es, v.Clean
  hashes : ∀ pairs ∈ m.heap.hashes, pairs.Clean
  frames : ∀ frame ∈ m.control.frames, ∀ v ∈ frame.args, v.Clean

/-- Faults may be reported anywhere. -/
def Origins.anywhere (root : Program) : Origins where
  root := root
  Node _ _ := True
  Flaw _ _ := True

section

variable {root : Program} {m : Machine σ}

/-- A clean machine is sound, wherever faults may be reported. -/
theorem Machine.Clean.sound (hm : m.Clean) :
  m.Sound (.anywhere root)
  where
  heap := ⟨hm.arrays, hm.hashes, fun _ _ _ _ => trivial⟩
  scopes := hm.scopes
  frames := hm.frames

/-- A sound machine is clean. -/
theorem Machine.Sound.clean {o : Origins} (hm : m.Sound o) :
  m.Clean
  := ⟨hm.scopes, hm.heap.arrays, hm.heap.hashes, hm.frames⟩

/-- A clean machine is clean at the start of an evaluation. -/
theorem Machine.Clean.anew (hm : m.Clean) :
  m.anew.Clean
  := ⟨hm.scopes, hm.arrays, hm.hashes, List.forall_mem_nil _⟩

/-- Nothing is asked of tasks where faults may be reported anywhere. -/
theorem Task.known_anywhere {y : Yield} (t : Task y) :
  t.Known (.anywhere root)
  := by
  cases t
  case program => exact fun _ _ => trivial
  case text => exact fun _ _ => trivial
  all_goals trivial

end

/-! ### Clean runs -/

/-- Whether an outcome is a value that is no error, a `return` of such a value or a fault, and
leaves a clean machine. -/
structure Outcome.Clean (r : Outcome σ Value) : Prop where
  machine : r.machine.Clean
  result : r.Follows (fun v _ => v.Clean) fun u _ => ∀ v, u = .ret v → v.Clean

variable {setting : Setting σ} {n : Nat} {m : Machine σ}

/-- A sound outcome is clean if its value is no error. -/
theorem Outcome.Sound.clean {o : Origins} {Q : Value → Prop} {r : Outcome σ Value}
    (hr : r.Sound o m Q) (hQ : ∀ v, Q v → v.Clean) :
  r.Clean
  := by
  refine ⟨hr.sound.clean, ?_⟩
  have hresult := hr.result
  rcases r with ⟨v, m'⟩ | ⟨u, m'⟩
  · exact hQ v hresult
  · rintro v rfl
    exact hresult

/-- A task that tells no fault comes to a clean outcome. -/
theorem Task.clean_run (root : Program) (hm : m.Clean) (n : Nat) (t : Task .value)
    (hfit : t.Fit (.anywhere root) setting m.control)
    (htells : ∀ f, ¬ t.Tells (.anywhere root) setting m.control f) :
  Outcome.Clean (t.run setting n m)
  := by
  have hrun := (soundness_kept (.anywhere root) setting).run n t m
    (fun _ t' _ _ => t'.known_anywhere) ⟨hm.sound, hfit⟩
  exact Outcome.Sound.clean hrun.1 fun v => Value.IfError.mono htells

/-- However a task ends, it leaves no errors behind on a clean machine. -/
theorem Task.Ends.clean_machine {y : Yield} {t : Task y} {r : Outcome σ y.Of} (root : Program)
    (h : t.Ends setting m r) (hm : m.Clean) (hfit : t.Fit (.anywhere root) setting m.control) :
  r.machine.Clean
  := by
  obtain ⟨n, rfl, -⟩ := h
  have hrun := (soundness_kept (.anywhere root) setting).run n t m
    (fun _ t' _ _ => t'.known_anywhere) ⟨hm.sound, hfit⟩
  exact hrun.1.sound.clean

/-- A call on a clean machine, with arguments that are no errors, comes to a clean outcome. -/
theorem Task.Ends.clean_apply {callee : Value} {args : List Value} {scope : Scope} {pos : Position}
    {r : Outcome σ Value} (h : (Task.apply callee args scope pos).Ends setting m r) (hm : m.Clean)
    (hargs : ∀ v ∈ args, v.Clean) :
  Outcome.Clean r
  := by
  obtain ⟨n, rfl, -⟩ := h
  exact Task.clean_run ⟨[], ""⟩ hm n _ ⟨hargs, trivial⟩ fun _ hf => hf

/-- What an evaluation starts is honest, wherever faults are reported. -/
theorem Program.honest_anywhere (setting : Setting σ) (program : Program) (scope : Scope) :
  (program.plan setting scope).Honest (.anywhere program) setting .initial fun _ => True
  := by
  have hprogram : (Plan.call (.program program scope) Plan.ret).Honest (.anywhere program) setting
      .initial fun _ => True := ⟨.inl rfl, fun _ _ => trivial⟩
  unfold Program.plan
  split
  · refine ⟨trivial, fun v _ => ?_⟩
    cases v
    case error => trivial
    all_goals exact hprogram
  · exact hprogram

/-- An evaluation from a clean machine keeps to what is sound, wherever its faults are reported. -/
theorem Program.sound_anywhere (setting : Setting σ) (hm : m.Clean) (n : Nat) (program : Program)
    (scope : Scope) :
  (soundness (.anywhere program) setting).Keeps
    (Outcome.Sound (.anywhere program) m.anew fun _ => True)
    (Run.evaluate setting n program scope m) (program.moments setting n scope m)
  := by
  have hkept : (soundness (.anywhere program) setting).KeptWithin setting n :=
    (soundness_kept _ setting).run n
  rw [Run.evaluate_apply]
  apply hkept.plan
  · exact (program.honest_anywhere setting scope).obeys_soundness hm.anew.sound (.refl _)
  · exact fun _ t _ _ => t.known_anywhere

/-- The kind of a value that is no error is not called `error`. -/
theorem Value.Clean.kind_name_ne {v : Value} (hv : v.Clean) :
  v.kind.name ≠ "error"
  := by
  cases v
  case error => exact hv.elim
  all_goals simp [Value.kind, ValueKind.name]

namespace Run

variable (setting : Setting σ) (scope : Scope)

/-- No statement comes to an error value. -/
theorem clean_evalStatement (hm : m.Clean) (n : Nat) (s : Stmt) :
  Outcome.Clean (evalStatement setting n s scope m)
  := Task.clean_run ⟨[], ""⟩ hm n (.statement s scope) (fun _ _ => trivial) fun _ hf => hf

/-- No expression comes to an error value. -/
theorem clean_eval (hm : m.Clean) (n : Nat) (e : Expr) :
  Outcome.Clean (eval setting n e scope m)
  := Task.clean_run ⟨[], ""⟩ hm n (.expr e scope) (fun _ _ => trivial) fun _ hf => hf

/-- No value is of the kind of errors. -/
theorem typeOf_ne (hm : m.Clean) (n : Nat) (pos : Position) (operand : Expr) :
  Outcome.Follows (evalUnary setting n pos .typeOf operand scope m)
    (fun v _ => v ≠ .str "error") fun _ _ => True
  := by
  cases n with
  | zero => trivial
  | succ n =>
      have hoperand := (clean_eval setting scope hm n operand).result
      change Outcome.Follows ((Task.unary pos .typeOf operand scope).run setting (n + 1) m) _ _
      rw [Task.run_succ]
      simp only [Task.plan, Task.unaryPlan]
      rw [Plan.run_call]
      change Outcome.Follows (Outcome.andThen (eval setting n operand scope m) _) _ _
      generalize eval setting n operand scope m = r at hoperand ⊢
      rcases r with ⟨v, m'⟩ | ⟨u, m'⟩
      · exact fun h => hoperand.kind_name_ne (Value.str.inj h)
      · trivial

/-- In an evaluation from a machine that holds no error, no machine does at any moment.  No
statement and no expression comes to an error or returns one, and no value is told to be of the kind
of errors.  Whatever task fails, the evaluation ends with an error of the same wording. -/
theorem evaluate_clean (setting : Setting σ) (n : Nat) (program : Program) (scope : Scope)
    {m : Machine σ} (hm : m.Clean) :
  (∀ x ∈ program.moments setting n scope m, x.machine.Clean)
  ∧ (Outcome.machine (evaluate setting n program scope m)).Clean
  ∧ (∀ s, Outcome.Clean (evalStatement setting n s scope m))
  ∧ (∀ e, Outcome.Clean (eval setting n e scope m))
  ∧ (∀ pos e, Outcome.Follows (evalUnary setting n pos .typeOf e scope m)
    (fun v _ => v ≠ .str "error") fun _ _ => True)
  ∧ ∀ f ∈ program.failures setting n scope m,
    ∃ f' m', evaluate setting n program scope m = .ok (.error f') m' ∧ f'.message = f.message
  := by
  obtain ⟨hsound, hmoments⟩ := Program.sound_anywhere setting hm n program scope
  refine ⟨fun x hx => (hmoments x hx).1.clean, hsound.sound.clean,
    clean_evalStatement setting scope hm n, clean_eval setting scope hm n,
    typeOf_ne setting scope hm n, fun f hf => ?_⟩
  obtain ⟨f', m', heq, hcause⟩ := evaluate_eq_error hf
  exact ⟨f', m', heq, congrArg Cause.message hcause⟩

/-- A text that fails when `eval` runs it for an element of an array, while the kind of the result
is asked for. -/
theorem evaluate_clean_callback :
  let setting : Setting :=
    ⟨{ Options.standard with useLibrary := false, allowEval := true }, Device.standard, .empty⟩
  let text := "func f(x) \x7b eval(\"missing\") \x7d; typeof __builtin_forEach([1], f)"
  let program := (Program.parse text "main.tiny").1
  let m := Machine.fresh (.ofLines [])
  m.Clean
  ∧ (∃ f ∈ program.failures setting 40 [0] m, f.message = "Undefined name 'missing'")
  ∧ (∀ x ∈ program.moments setting 40 [0] m, x.machine.Clean)
  ∧ ∃ f m', evaluate setting 40 program [0] m = .ok (.error f) m'
    ∧ f.message = "Undefined name 'missing'"
  := by
  intro setting text program m
  have hm : m.Clean := (Machine.sound_fresh (.anywhere program) _).clean
  have hmem :
      "Undefined name 'missing'" ∈ (program.failures setting 40 [0] m).map Fault.message := by
    decide +kernel
  obtain ⟨f, hf, hmessage⟩ := List.mem_map.mp hmem
  obtain ⟨hmoments, -, -, -, -, hends⟩ := evaluate_clean setting 40 program [0] hm
  obtain ⟨f', m', heq, hf'⟩ := hends f hf
  exact ⟨hm, ⟨f, hf, hmessage⟩, hmoments, f', m', heq, hf'.trans hmessage⟩

end Run

end Scriptlet
