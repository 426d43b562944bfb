import Scriptlet.Proofs.Running.Alike
import Scriptlet.Proofs.Running.Steady

/-!
# Runs on different streams

Two runs of one program go side by side on machines that differ in their streams.  As long as the
streams give the same answers, the machines are left the same but for the streams, and the runs come
to the same.  The answers are the same if a relation between the states of the streams sees to it
and holds again of the states that are left (`SameAnswers`).

All that is asked of streams is asked in actions, and operations do not look at streams otherwise.
So it is enough that the actions go side by side (`Setting.Parallel`), and for this, that what may
be asked is answered alike (`Action.parallel_run`).
-/

namespace Scriptlet

variable {σ σ' : Type} {α β : Type} {R : σ → σ' → Prop}

/-! ### Outcomes on other streams -/

/-- The outcome on other streams. -/
def Outcome.on (r : Outcome σ α) (streams : σ') : Outcome σ' α :=
  match r with
  | .ok a m => .ok a (m.on streams)
  | .error u m => .error u (m.on streams)

/-- An outcome with other streams leaves its machine with them. -/
theorem Outcome.machine_on (r : Outcome σ α) (streams : σ') :
  (r.on streams).machine = r.machine.on streams
  := by
  cases r
  all_goals rfl

/-- An outcome is put on its own streams by leaving it as it is. -/
theorem Outcome.on_self (r : Outcome σ α) :
  r.on r.machine.streams = r
  := by
  cases r
  all_goals rfl

/-- Whether `r'` is the same as `r` but for its streams, which `R` relates to those of `r`. -/
def Outcome.Parallel (R : σ → σ' → Prop) (r : Outcome σ α) (r' : Outcome σ' α) : Prop :=
  ∃ streams, R r.machine.streams streams ∧ r' = r.on streams

/-- What goes on side by side behind outcomes side by side comes to such. -/
theorem Outcome.Parallel.andThen {r : Outcome σ α} {r' : Outcome σ' α}
    {next : α → Machine σ → Outcome σ β} {next' : α → Machine σ' → Outcome σ' β}
    (hr : r.Parallel R r')
    (hnext : ∀ a m streams, R m.streams streams →
      (next a m).Parallel R (next' a (m.on streams))) :
  (r.andThen next).Parallel R (r'.andThen next')
  := by
  obtain ⟨streams, hstreams, rfl⟩ := hr
  cases r with
  | ok a m => exact hnext a m streams hstreams
  | error u m => exact ⟨streams, hstreams, rfl⟩

/-- What a bracket makes of an outcome does not depend on streams. -/
theorem Bracket.outcome_on (b : Bracket) (m : Machine σ) (r : Outcome σ Value)
    (streams streams' : σ') :
  b.outcome (m.on streams) (r.on streams') = (b.outcome m r).on streams'
  := by
  rcases r with ⟨v, m'⟩ | ⟨u, m'⟩
  · rfl
  · unfold outcome Outcome.on
    dsimp only
    cases b.land u
    all_goals rfl

/-! ### Runs side by side -/

/-- Whether two runs come to the same on machines that are the same but for their streams, if `R`
relates these, and it relates those that are left. -/
def Parallel (R : σ → σ' → Prop) (r : RunOn σ α) (r' : RunOn σ' α) : Prop :=
  ∀ (m : Machine σ) (streams : σ'), R m.streams streams →
    Outcome.Parallel R (r m) (r' (m.on streams))

namespace Parallel

/-- The same value is made side by side. -/
theorem pure (a : α) :
  Parallel R (Pure.pure a) (Pure.pure a)
  := fun _ streams h => ⟨streams, h, rfl⟩

/-- Runs stop side by side for the same reason. -/
theorem throw (u : Unwind) :
  Parallel R (MonadExcept.throw u : RunOn σ α) (MonadExcept.throw u)
  := fun _ streams h => ⟨streams, h, rfl⟩

/-- Runs side by side can be put one after the other. -/
theorem bind {r : RunOn σ α} {r' : RunOn σ' α} {f : α → RunOn σ β} {f' : α → RunOn σ' β}
    (hr : Parallel R r r') (hf : ∀ a, Parallel R (f a) (f' a)) :
  Parallel R (r >>= f) (r' >>= f')
  := by
  intro m streams h
  rw [Outcome.bind_apply, Outcome.bind_apply]
  exact (hr m streams h).andThen hf

/-- Runs that begin by looking at the machine. -/
theorem get {f : Machine σ → RunOn σ α} {f' : Machine σ' → RunOn σ' α}
    (hf : ∀ m streams, Parallel R (f m) (f' (m.on streams))) :
  Parallel R (MonadState.get >>= f) (MonadState.get >>= f')
  := fun m streams h => hf m streams m streams h

/-- The scopes are changed side by side. -/
theorem modifyScopes (f : Scopes → Scopes) :
  Parallel R (Run.modifyScopes f) (Run.modifyScopes f)
  := fun _ streams h => ⟨streams, h, rfl⟩

/-- The same scope is made side by side. -/
theorem enclose (outer : Scope) (b : Bindings) :
  Parallel R (Run.enclose outer b) (Run.enclose outer b)
  := fun _ streams h => ⟨streams, h, rfl⟩

/-- A name is bound where it was bound before, or nowhere. -/
theorem assign (name : String) (value : Value) (scope : Scope) :
  Parallel R (Run.assign name value scope) (Run.assign name value scope)
  := by
  apply get
  intro m streams
  rw [Machine.scopes_on]
  split
  · exact (modifyScopes _).bind fun _ => pure _
  · exact pure _

/-- A bracket leaves the streams as they are inside. -/
theorem within {r : RunOn σ Value} {r' : RunOn σ' Value} (hr : Parallel R r r') (b : Bracket) :
  Parallel R (b.run r) (b.run r')
  := by
  intro m streams hstreams
  obtain ⟨streams', hstreams', heq⟩ := hr (b.opened m) streams hstreams
  refine ⟨streams', ?_, ?_⟩
  · change R (Outcome.machine (b.outcome m (r (b.opened m)))).streams streams'
    rw [b.machine_outcome]
    exact hstreams'
  · change b.outcome (m.on streams) (r' ((b.opened m).on streams)) = _
    rw [heq]
    exact b.outcome_on m _ streams streams'

end Parallel

/-! ### What is asked of streams -/

/-- Whether streams in states that `R` relates give the same answer to a request and are left in
such states. -/
def SameAnswers (R : σ → σ' → Prop) (request : σ → α × σ) (request' : σ' → α × σ') : Prop :=
  ∀ s s', R s s' → (request' s').1 = (request s).1 ∧ R (request s).2 (request' s').2

/-- Requests with the same answers are made side by side. -/
theorem SameAnswers.parallel {request : σ → α × σ} {request' : σ' → α × σ'}
    (h : SameAnswers R request request') :
  Parallel R (Run.exchange request) (Run.exchange request')
  := by
  intro m streams hstreams
  obtain ⟨hanswer, hleft⟩ := h m.streams streams hstreams
  refine ⟨(request' streams).2, hleft, ?_⟩
  exact congrArg (EStateM.Result.ok · (m.on (request' streams).2)) hanswer

/-- Operations do the same on different streams if what may be asked of them is answered alike. -/
theorem Parallel.compositional {setting : Setting σ} {terminal : Terminal σ'}
    (hasks : ∀ {γ : Type} {request : σ → γ × σ} {request' : σ' → γ × σ'},
      setting.Asks terminal request request' → SameAnswers R request request') :
  Compositional setting terminal (Parallel R)
  where
  pure := pure
  stop f := throw (.fault f)
  bind := bind
  get hf _ := get hf
  modifyArray _ _ := fun _ streams h => ⟨streams, h, rfl⟩
  exchange request := (hasks request).parallel
  newArray _ := fun _ streams h => ⟨streams, h, rfl⟩
  newHash _ := fun _ streams h => ⟨streams, h, rfl⟩
  newClosure _ := fun _ streams h => ⟨streams, h, rfl⟩
  answer {_ ask} _ := by
    intro m streams h
    rw [Quiet.answer_apply, Quiet.answer_apply, Machine.heap_on]
    cases ask m.heap
    all_goals exact ⟨streams, h, rfl⟩

/-- Actions go side by side if all that may be asked of the streams has the same answers. -/
theorem Action.parallel_run {setting : Setting σ} {terminal : Terminal σ'}
    (hasks : ∀ {γ : Type} {request : σ → γ × σ} {request' : σ' → γ × σ'},
      setting.Asks terminal request request' → SameAnswers R request request')
    (a : Action) :
  Parallel R (a.run setting) (a.run (setting.on terminal))
  := by
  apply (Parallel.compositional hasks).action
  · exact fun scope name v _ => .modifyScopes _
  · exact Parallel.assign
  · exact fun scope name _ => .modifyScopes _
  · exact fun outer b _ => .enclose outer b

/-! ### Evaluations -/

/-- Whether runs under two settings go side by side on streams that `R` relates: the actions do, and
the settings agree in what plans depend on, in the limits and in the use of the library. -/
structure Setting.Parallel (R : σ → σ' → Prop) (setting : Setting σ) (setting' : Setting σ') : Prop
    extends setting.Congruent setting' where
  act (a : Action) : Scriptlet.Parallel R (a.run setting) (a.run setting')
  maxSteps : setting'.options.maxSteps = setting.options.maxSteps
  maxDepth : setting'.options.maxDepth = setting.options.maxDepth
  useLibrary : setting'.options.useLibrary = setting.options.useLibrary

namespace Setting.Parallel

variable {setting : Setting σ} {setting' : Setting σ'}

/-- A step that is counted does nothing to the streams. -/
theorem tick (h : Parallel R setting setting') (pos : Position) :
  Scriptlet.Parallel R (Run.tick setting pos) (Run.tick setting' pos)
  := by
  intro m streams hstreams
  rw [Run.tick_apply, Run.tick_apply, h.maxSteps]
  cases setting.options.maxSteps with
  | none => exact ⟨streams, hstreams, rfl⟩
  | some limit =>
      change Outcome.Parallel R (if limit < m.control.steps + 1 then _ else _)
        (if limit < m.control.steps + 1 then _ else _)
      split
      all_goals exact ⟨streams, hstreams, rfl⟩

/-- Plans go side by side if the tasks do that they start: by induction on the plan. -/
theorem run_plan (h : Parallel R setting setting') {start : {y : Yield} → Task y → RunOn σ y.Of}
    {start' : {y : Yield} → Task y → RunOn σ' y.Of}
    (hstart : ∀ (y : Yield) (t : Task y), Scriptlet.Parallel R (start t) (start' t))
    (p : Plan α) :
  Scriptlet.Parallel R (p.run setting start) (p.run setting' start')
  := by
  induction p with
  | ret a => exact .pure a
  | leave v => exact .throw (.ret v)
  | stop f => exact .throw (.fault f)
  | act a next ih => exact (h.act a).bind ih
  | tick pos next ih => exact (h.tick pos).bind fun _ => ih
  | room full next ihfull ih =>
      refine .get (f := fun m => if setting.options.maxDepth ≤ m.control.depth then _ else _)
        fun m streams => ?_
      rw [h.maxDepth, Machine.control_on]
      split
      · exact ihfull _
      · exact ih
  | call t next ih => exact (hstart _ t).bind ih
  | within b t next ih =>
      exact Scriptlet.Parallel.bind ((hstart _ t).within b) ih

/-- Tasks go side by side: by induction on the fuel. -/
theorem run_task (h : Parallel R setting setting') (n : Nat) {y : Yield} (t : Task y) :
  Scriptlet.Parallel R (t.run setting n) (t.run setting' n)
  := by
  induction n generalizing y t with
  | zero =>
      rw [Task.run_zero, Task.run_zero]
      exact .throw .exhausted
  | succ n ih =>
      rw [Task.run_succ, Task.run_succ, h.plan_task]
      exact h.run_plan (fun _ => ih) _

/-- Evaluations on streams that are related come to the same and leave streams that are related. -/
theorem evaluate (h : Parallel R setting setting') (n : Nat) (program : Program) (scope : Scope) :
  Scriptlet.Parallel R (Run.evaluate setting n program scope)
    (Run.evaluate setting' n program scope)
  := by
  intro m streams hstreams
  have hplan : program.plan setting' scope = program.plan setting scope := by
    rw [Program.plan, Program.plan, h.useLibrary]
  rw [Run.evaluate_apply, Run.evaluate_apply, hplan]
  exact h.run_plan (fun _ t => h.run_task n t) _ m.anew streams hstreams

end Setting.Parallel

end Scriptlet
