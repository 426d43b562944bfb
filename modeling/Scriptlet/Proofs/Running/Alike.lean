import Scriptlet.Proofs.Running.Plan

/-!
# Settings that make no difference

What tasks do depends on little of a setting.  The plan of a task depends on whether texts may be
run and on the units there are, and the run of an action on the streams and on whether code may be
handed to the host.  So settings that agree in this differ at most in their limits.
-/

namespace Scriptlet

variable {σ σ' : Type}

/-- Whether two settings agree in all that plans depend on. -/
structure Setting.Congruent (setting : Setting σ) (setting' : Setting σ') : Prop where
  allowEval : setting'.options.allowEval = setting.options.allowEval
  unit? : setting'.unit? = setting.unit?

/-- Whether two settings agree in all that plans and actions depend on. -/
structure Setting.Alike (setting setting' : Setting σ) : Prop
    extends setting.Congruent setting' where
  allowHost : setting'.options.allowHost = setting.options.allowHost
  terminal : setting'.terminal = setting.terminal

namespace Setting

/-- Of the native functions only `eval` consults the options when its plan is made. -/
theorem Congruent.plan_native {setting : Setting σ} {setting' : Setting σ'}
    (h : setting.Congruent setting') (f : Native) (args : List Value) (scope : Scope) :
  Task.nativePlan setting' f args scope = Task.nativePlan setting f args scope
  := by
  cases f
  case eval => simp only [Task.nativePlan, h.allowEval]
  all_goals rfl

/-- Every task has the same plan under settings that agree in what plans depend on. -/
theorem Congruent.plan_task {setting : Setting σ} {setting' : Setting σ'}
    (h : setting.Congruent setting') {y : Yield} (t : Task y) :
  t.plan setting' = t.plan setting
  := by
  cases t
  case statements ss scope =>
    rcases ss with _ | ⟨s, _ | ⟨s', rest⟩⟩
    all_goals rfl
  case all es scope | entries es pairs scope =>
    cases es
    all_goals rfl
  case forEach elements i scope =>
    cases elements
    all_goals rfl
  case native f args scope => exact h.plan_native f args scope
  case unit name scope => simp only [Task.plan, h.unit?]
  all_goals rfl

/-- Actions consult whether code may be handed to the host, and the streams. -/
theorem Alike.run_action {setting setting' : Setting σ} (h : setting.Alike setting') (a : Action) :
  a.run setting' = a.run setting
  := by
  cases a
  case native f args scope =>
    simp only [Action.run]
    cases f
    case host =>
      unfold Action.runNative Run.host
      rw [h.allowHost, h.terminal]
    case print | printError | readLine =>
      rw [Action.runNative, Action.runNative, h.terminal]
    all_goals rfl
  all_goals rfl

end Setting

end Scriptlet
