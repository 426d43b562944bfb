import Scriptlet.Proofs.Balance
import Scriptlet.Proofs.Running.Ending

/-!
# Programs one after the other

A program that is run line by line comes to the same as one that is run at once.  The statements of
the second part start on the machine that those of the first part leave, and that is the machine on
which a run of the second part alone would start: nothing of a run is left but values, names and
streams, unless steps are counted.
-/

namespace Scriptlet

variable {σ : Type}

/-- Whether the evaluation of a program comes to an outcome if it has enough fuel. -/
def Program.Evaluates (setting : Setting σ) (program : Program) (scope : Scope) (m : Machine σ)
    (r : Outcome σ Value) : Prop :=
  ∃ n, Run.evaluate setting n program scope m = r ∧ ¬ r.Exhausted

/-- Whether a `return` outside of functions ends the evaluation of a program. -/
def Program.Returns (setting : Setting σ) (program : Program) (scope : Scope)
    (m : Machine σ) : Prop :=
  ∃ v m', (Task.statements program.statements scope).Ends setting
    ((Bracket.program program.file).opened m.anew) (.error (.ret v) m')

variable {setting : Setting σ} {scope : Scope} {m m' : Machine σ} {v : Value} {r : Outcome σ Value}

/-! ### Statements -/

namespace Task

/-- What follows a task that comes to a value. -/
theorem Ends.follows_iff {y : Yield} {t : Task y} {a : y.Of} (h : t.Ends setting m (.ok a m'))
    {P : y.Of → Machine σ → Prop} {Q : Unwind → Machine σ → Prop} :
  (∃ r₁, t.Ends setting m r₁ ∧ r₁.Follows P Q) ↔ P a m'
  := by
  constructor
  · rintro ⟨r₁, ht, hfollows⟩
    obtain rfl := ht.unique h
    exact hfollows
  · intro hP
    exact ⟨_, h, hP⟩

/-- No statements come to `null`. -/
theorem ends_statements_nil :
  (statements [] scope).Ends setting m r ↔ r = .ok .null m
  := ends_iff.trans Plan.ends_ret

/-- A single statement comes to what it does alone. -/
theorem ends_statements_singleton {s : Stmt} :
  (statements [s] scope).Ends setting m r ↔ (statement s scope).Ends setting m r
  := ends_iff.trans ends_last

/-- Statements come to what the others do behind the first, unless that stops. -/
theorem ends_statements_cons {s : Stmt} {rest : List Stmt} (hrest : rest ≠ []) :
  (statements (s :: rest) scope).Ends setting m r
    ↔ ∃ r₁, (statement s scope).Ends setting m r₁
      ∧ r₁.Follows (fun _ m' => (statements rest scope).Ends setting m' r)
        fun u m' => r = .error u m'
  := by
  obtain ⟨s', rest, rfl⟩ := List.exists_cons_of_ne_nil hrest
  refine ends_iff.trans (Plan.ends_call.trans ?_)
  apply exists_congr
  intro r₁
  apply and_congr_right
  intro _
  cases r₁ with
  | ok v m' => exact ends_last
  | error u m' => rfl

/-- Behind statements that come to a value, others start on the machine that they leave. -/
theorem ends_statements_append {front behind : List Stmt} (hbehind : behind ≠ [])
    (h : (statements front scope).Ends setting m (.ok v m')) :
  (statements (front ++ behind) scope).Ends setting m r
    ↔ (statements behind scope).Ends setting m' r
  := by
  induction front generalizing m with
  | nil =>
      obtain ⟨-, rfl⟩ : Value.null = v ∧ m = m' := by
        simpa [eq_comm] using ends_statements_nil.mp h
      rfl
  | cons s front ih =>
      rw [List.cons_append, ends_statements_cons (List.append_ne_nil_of_right_ne_nil front hbehind)]
      rcases front with _ | ⟨s', front⟩
      · exact (ends_statements_singleton.mp h).follows_iff
      · obtain ⟨r₁, hs, hfollows⟩ := (ends_statements_cons (List.cons_ne_nil s' front)).mp h
        cases r₁ with
        | ok v₁ m₁ => exact hs.follows_iff.trans (ih hfollows)
        | error u m₁ => cases hfollows

end Task

/-! ### Steps that are not counted -/

/-- Leaving a bracket counts no step. -/
theorem Bracket.steps_closed (b : Bracket) (m now : Machine σ) :
  (b.closed m now).control.steps = now.control.steps
  := by
  cases b
  all_goals rfl

/-- Without a limit nothing that a plan does counts a step. -/
theorem steady_steps (hsteps : setting.options.maxSteps = none) :
  Steady setting fun m m' => m'.control.steps = m.control.steps
  where
  refl _ := rfl
  trans h₁ h₂ := h₂.trans h₁
  act a m := congrArg Control.steps ((a.quiet_run setting).control m)
  tick pos m := by
    rw [Run.tick_apply, hsteps]
    rfl
  within b m m' h := by
    rw [b.steps_closed, h, b.steps_opened]

/-- However a task ends, the run stands where it stood. -/
theorem Task.Ends.level {y : Yield} {t : Task y} {r : Outcome σ y.Of} (h : t.Ends setting m r) :
  m.Level r.machine
  := by
  obtain ⟨n, rfl, -⟩ := h
  exact t.level_run setting n m

/-- If steps are not counted, a task leaves the machine where it stood. -/
theorem Task.Ends.control_eq {y : Yield} {t : Task y} {r : Outcome σ y.Of}
    (h : t.Ends setting m r) (hsteps : setting.options.maxSteps = none) :
  (Outcome.machine r).control = m.control
  := by
  have hlevel := h.level.control
  obtain ⟨n, rfl, -⟩ := h
  rw [hlevel, (steady_steps hsteps).run n t m]

/-! ### Programs -/

/-- What a program in a file comes to if its statements come to `r`. -/
def Program.conclude (file : String) (m : Machine σ) (r : Outcome σ Value) : Outcome σ Value :=
  ((Bracket.program file).outcome m r).andThen fun
    | .error f, m' => .ok (.error (f.inFile file)) m'
    | v, m' => .ok v m'

/-- A program comes to what its statements do, settled and in its file. -/
theorem Task.ends_program {p : Program} :
  (program p scope).Ends setting m r
    ↔ ∃ r₁, (statements p.statements scope).Ends setting ((Bracket.program p.file).opened m) r₁
      ∧ r = Program.conclude p.file m r₁
  := by
  refine ends_iff.trans (Plan.ends_within.trans ?_)
  apply exists_congr
  intro r₁
  apply and_congr_right
  intro _
  unfold Program.conclude
  cases (Bracket.program p.file).outcome m r₁ with
  | ok v m' =>
      cases v
      all_goals exact Plan.ends_ret
  | error u m' => rfl

namespace Program

variable {program : Program}

/-- An evaluation comes to what the statements of its program do, on a machine set back. -/
theorem evaluates_iff (hlibrary : setting.options.useLibrary = false) :
  program.Evaluates setting scope m r
    ↔ ∃ r₁, (Task.statements program.statements scope).Ends setting
        ((Bracket.program program.file).opened m.anew) r₁
      ∧ r = conclude program.file m.anew r₁
  := by
  have hplan : program.plan setting scope = .call (.program program scope) .ret := by
    unfold plan
    rw [hlibrary]
    rfl
  rw [← Task.ends_program, ← Task.ends_last, ← hplan]
  unfold Evaluates Plan.Ends
  simp only [Run.evaluate_apply]

/-- The statements of a program come to a value if no `return` ends it and it ends with no error. -/
theorem Evaluates.exists_ok (hlibrary : setting.options.useLibrary = false) {m₁ : Machine σ}
    (h : program.Evaluates setting scope m (.ok v m₁)) (herror : ∀ f, v ≠ .error f)
    (hreturn : ¬ program.Returns setting scope m) :
  ∃ v' m', (Task.statements program.statements scope).Ends setting
      ((Bracket.program program.file).opened m.anew) (.ok v' m')
    ∧ m₁ = (Bracket.program program.file).closed m.anew m'
  := by
  obtain ⟨r, hr, heq⟩ := (evaluates_iff hlibrary).mp h
  rcases r with ⟨v', m'⟩ | ⟨u, m'⟩
  · refine ⟨v', m', hr, ?_⟩
    cases v'
    all_goals
      cases heq
      rfl
  · cases u
    case fault f =>
      cases heq
      exact absurd rfl (herror _)
    case ret v' => exact absurd ⟨v', m', hr⟩ hreturn
    all_goals cases heq

end Program

/-- Statements that end with no error and no `return` come, with others behind them, to what a
second evaluation comes to that runs the others in the scope and on the machine that the evaluation
of the first ones has left: to the same value or error, with the same values in the heap and in the
scopes and the same texts read and written. -/
theorem Program.evaluates_append (hsteps : setting.options.maxSteps = none)
    (hlibrary : setting.options.useLibrary = false) {front behind : List Stmt} {file : String}
    (hbehind : behind ≠ []) {m₁ : Machine σ}
    (hfront : Program.Evaluates setting ⟨front, file⟩ scope m (.ok v m₁))
    (herror : ∀ f, v ≠ .error f) (hreturn : ¬ Program.Returns setting ⟨front, file⟩ scope m)
    (r : Outcome σ Value) :
  Program.Evaluates setting ⟨front ++ behind, file⟩ scope m r
    ↔ Program.Evaluates setting ⟨behind, file⟩ scope m₁ r
  := by
  obtain ⟨v', m', hends, rfl⟩ := hfront.exists_ok hlibrary herror hreturn
  have hcontrol : m'.control = ((Bracket.program file).opened m.anew).control :=
    hends.control_eq hsteps
  have hagain :
      (Bracket.program file).opened ((Bracket.program file).closed m.anew m').anew = m' := by
    change { m' with control := ((Bracket.program file).opened m.anew).control } = m'
    rw [← hcontrol]
  have hconclude (r : Outcome σ Value) :
    conclude file ((Bracket.program file).closed m.anew m').anew r = conclude file m.anew r
    := rfl
  rw [evaluates_iff hlibrary, evaluates_iff hlibrary]
  simp only [hagain, hconclude, Task.ends_statements_append hbehind hends]

/-- A line that reads a name and declares a function, and one that calls it with another name and
fails. -/
theorem Program.evaluates_append_lines :
  let setting : Setting := ⟨{ Options.standard with useLibrary := false }, Device.standard, .empty⟩
  let front := (Program.parse ("let s = __builtin_readline();"
    ++ "func f(t) \x7b s = s + t; __builtin_print(s) \x7d true") "<REPL>").1.statements
  let behind := (Program.parse "f(__builtin_readline()); throw s" "<REPL>").1.statements
  let m : Machine := { Machine.initial (.ofLines ["a", "b"]) with scopes := ⟨#[[]]⟩ }
  setting.options.maxSteps = none ∧ setting.options.useLibrary = false ∧ behind ≠ []
  ∧ ¬ Program.Returns setting ⟨front, "<REPL>"⟩ [0] m
  ∧ ∃ m₁, Program.Evaluates setting ⟨front, "<REPL>"⟩ [0] m (.ok (.bool true) m₁)
    ∧ ∀ r, Program.Evaluates setting ⟨front ++ behind, "<REPL>"⟩ [0] m r
      ↔ Program.Evaluates setting ⟨behind, "<REPL>"⟩ [0] m₁ r
  := by
  intro setting front behind m
  have hbehind : behind ≠ [] := by decide +kernel
  have hvalue : Outcome.isTrue (Run.evaluate setting 40 ⟨front, "<REPL>"⟩ [0] m) = true := by
    decide +kernel
  obtain ⟨m₁, hrun⟩ := Outcome.exists_of_isTrue hvalue
  have hlast : Outcome.isTrue ((Task.statements front [0]).run setting 40
      ((Bracket.program "<REPL>").opened m.anew)) = true := by
    decide +kernel
  obtain ⟨m', hstatements⟩ := Outcome.exists_of_isTrue hlast
  clear_value front behind m
  have hreturn : ¬ Program.Returns setting ⟨front, "<REPL>"⟩ [0] m := by
    rintro ⟨v, m₂, hreturns⟩
    cases hreturns.unique ⟨40, hstatements, id⟩
  exact ⟨rfl, rfl, hbehind, hreturn, m₁, ⟨40, hrun, id⟩,
    Program.evaluates_append rfl rfl hbehind ⟨40, hrun, id⟩ (by rintro f ⟨⟩) hreturn⟩

end Scriptlet
