import Scriptlet.Script

/-!
# Plans

The functions of the evaluator as one family `Task.run`, indexed by what each of them evaluates.
What a task does is laid out as a tree, its plan: the actions it goes through and the tasks it
starts, each followed by what is done with the result.  A task with one more unit of fuel runs its
plan (`Task.run_succ`).  So what holds of every kind of node of a plan holds of every run, and it
is shown by one induction on the fuel and one on the plan.
-/

namespace Scriptlet

variable {σ : Type}

/-! ### Parts of runs on a machine -/

/-- What a run comes to. -/
abbrev Outcome (σ α : Type) : Type :=
  EStateM.Result Unwind (Machine σ) α

/-- The machine that is left. -/
def Outcome.machine {α : Type} : Outcome σ α → Machine σ
  | .ok _ m | .error _ m => m

namespace Run

variable {setting : Setting σ}

/-- Reading the heap hands on the heap of the machine. -/
theorem heap_bind {α : Type} (f : Heap → RunOn σ α) (m : Machine σ) :
  (heap >>= f) m = f m.heap m
  := rfl

/-- Reading where the run stands hands that on. -/
theorem control_bind {α : Type} (f : Control → RunOn σ α) (m : Machine σ) :
  (control >>= f) m = f m.control m
  := rfl

/-- What comes behind a change of where the run stands is run there. -/
theorem modifyControl_bind {α : Type} (f : Control → Control) (r : Unit → RunOn σ α)
    (m : Machine σ) :
  (modifyControl f >>= r) m = r () { m with control := f m.control }
  := rfl

/-- Whether a result is discarded or not named makes no difference. -/
theorem discard_bind {α β : Type} (r : RunOn σ α) (f : RunOn σ β) :
  (do discard r; f) = (do let _ ← r; f)
  := by
  funext m
  simp only [discard, Functor.discard, Functor.mapConst, Function.comp_apply,
    Function.const_apply, bind, EStateM.bind, EStateM.map]
  cases r m
  all_goals rfl

/-- What handles an unwinding is run on the machine that is left. -/
theorem tryCatch_apply {α : Type} (r : RunOn σ α) (handle : Unwind → RunOn σ α) (m : Machine σ) :
  tryCatch r handle m
    = match r m with
      | .ok a m' => .ok a m'
      | .error u m' => handle u m'
  := by
  change EStateM.tryCatch r handle m = _
  delta EStateM.tryCatch
  cases r m
  all_goals rfl

/-- What is undone behind a run is undone whether it succeeds or not. -/
theorem between_apply {α : Type} (enter leave : Control → Control) (r : RunOn σ α) (m : Machine σ) :
  Run.between enter leave r m
    = match r { m with control := enter m.control } with
      | .ok a m' => .ok a { m' with control := leave m'.control }
      | .error u m' => .error u { m' with control := leave m'.control }
  := by
  unfold Run.between
  rw [modifyControl_bind]
  simp only [bind, EStateM.bind, tryCatch_apply]
  cases r { m with control := enter m.control }
  all_goals rfl

/-- Settling makes an error value of a fault, and a value of a `return`. -/
theorem settle_apply (r : RunOn σ Value) (m : Machine σ) :
  Run.settle r m
    = match r m with
      | .ok v m' => .ok v m'
      | .error (.fault f) m' => .ok (.error f) m'
      | .error (.ret v) m' => .ok v m'
      | .error u m' => .error u m'
  := by
  change (tryCatch r _ : RunOn σ Value) m = _
  rw [tryCatch_apply]
  rcases r m with ⟨v, m'⟩ | ⟨u, m'⟩
  · rfl
  · cases u
    all_goals rfl

/-- At the end of a function a `return` has become its value, and a fault has the file of the
function. -/
theorem returning_apply (file : String) (r : RunOn σ Value) (m : Machine σ) :
  Run.returning file r m
    = match r m with
      | .ok v m' => .ok v m'
      | .error (.ret v) m' => .ok v m'
      | .error (.fault f) m' => .error (.fault (f.inFile file)) m'
      | .error u m' => .error u m'
  := by
  change (tryCatch r _ : RunOn σ Value) m = _
  rw [tryCatch_apply]
  rcases r m with ⟨v, m'⟩ | ⟨u, m'⟩
  · rfl
  · cases u
    all_goals rfl

/-- A counted step fails if it goes beyond the limit, and is counted in any case. -/
theorem tick_apply (pos : Position) (m : Machine σ) :
  Run.tick setting pos m
    = match setting.options.maxSteps with
      | none => .ok () m
      | some limit =>
        let m' := { m with control := { m.control with steps := m.control.steps + 1 } }
        if limit < m.control.steps + 1 then
          .error (.fault (.placed (.budgetExceeded limit) pos)) m'
        else
          .ok () m'
  := by
  unfold tick
  cases setting.options.maxSteps with
  | none => rfl
  | some limit =>
      by_cases h : limit < m.control.steps + 1
      · simp only [if_pos h]
        change (if limit < m.control.steps + 1 then _ else _ : RunOn σ Unit) _ = _
        rw [if_pos h]
        rfl
      · simp only [if_neg h]
        change (if limit < m.control.steps + 1 then _ else _ : RunOn σ Unit) _ = _
        rw [if_neg h]
        rfl

/-- A step that is counted changes nothing but the number of steps. -/
theorem exists_eq_of_tick {pos : Position} {m m' : Machine σ}
    (h : Run.tick setting pos m = .ok () m') :
  ∃ k, m' = { m with control := { m.control with steps := k } }
  := by
  rw [tick_apply] at h
  split at h
  · cases h
    exact ⟨_, rfl⟩
  · dsimp only at h
    split at h
    · cases h
    · cases h
      exact ⟨_, rfl⟩

end Run

/-! ### Tasks -/

/-- What a task makes. -/
inductive Yield where
  | value
  | values
  | pairs

/-- The values, lists of values or pairs that a task makes. -/
@[reducible] def Yield.Of : Yield → Type
  | value => Value
  | values => List Value
  | pairs => Pairs

/-- The functions of the evaluator with what they are applied to. -/
inductive Task : Yield → Type where
  | statements (ss : List Stmt) (scope : Scope) : Task .value
  | statement (s : Stmt) (scope : Scope) : Task .value
  | block (body : List Stmt) (scope : Scope) : Task .value
  | expr (e : Expr) (scope : Scope) : Task .value
  | unary (pos : Position) (op : UnaryOp) (operand : Expr) (scope : Scope) : Task .value
  | binary (pos : Position) (op : BinaryOp) (left right : Expr) (scope : Scope) : Task .value
  | loop (pos : Position) (test : Expr) (body : List Stmt) (last : Value) (scope : Scope) :
      Task .value
  | all (es : List Expr) (scope : Scope) : Task .values
  | entries (entries : List (Expr × Expr)) (pairs : Pairs) (scope : Scope) : Task .pairs
  | decorated (decorator : Expr) (declaration : Stmt) (scope : Scope) : Task .value
  | declared (declaration : Stmt) (name : String) (scope : Scope) : Task .value
  | apply (callee : Value) (args : List Value) (scope : Scope) (pos : Position) : Task .value
  | closure (id : Nat) (args : List Value) (pos : Position) : Task .value
  | native (f : Native) (args : List Value) (scope : Scope) : Task .value
  | overElements (args : List Value) (scope : Scope) : Task .value
  | forEach (callback : Value) (arity : Nat) (array : Value) (elements : List Value) (i : Nat)
      (scope : Scope) : Task .value
  | call (callee : Value) (args : List Value) (scope : Scope) : Task .value
  | text (text file : String) (scope : Scope) : Task .value
  | unit (name : String) (scope : Scope) : Task .value
  | program (program : Program) (scope : Scope) : Task .value

/-- The function of a task with the given fuel. -/
@[reducible] def Task.run (setting : Setting σ) (n : Nat) {y : Yield} : Task y → RunOn σ y.Of
  | statements ss scope => Run.evalStatements setting n ss scope
  | statement s scope => Run.evalStatement setting n s scope
  | block body scope => Run.evalBlock setting n body scope
  | expr e scope => Run.eval setting n e scope
  | unary pos op operand scope => Run.evalUnary setting n pos op operand scope
  | binary pos op left right scope => Run.evalBinary setting n pos op left right scope
  | loop pos test body last scope => Run.evalLoop setting n pos test body last scope
  | all es scope => Run.evalAll setting n es scope
  | entries es pairs scope => Run.evalEntries setting n es pairs scope
  | decorated decorator declaration scope => Run.evalDecorated setting n decorator declaration scope
  | declared declaration name scope => Run.evalDeclared setting n declaration name scope
  | apply callee args scope pos => Run.apply setting n callee args scope pos
  | closure id args pos => Run.callClosure setting n id args pos
  | native f args scope => Run.callNative setting n f args scope
  | overElements args scope => Run.callForEach setting n args scope
  | forEach callback arity array elements i scope =>
    Run.forEach setting n callback arity array elements i scope
  | call callee args scope => Run.call setting n callee args scope
  | text code file scope => Run.runText setting n code file scope
  | unit name scope => Run.importUnit setting n name scope
  | program p scope => Run.runProgram setting n p scope

/-! ### Actions -/

/-- What is done without starting a task. -/
inductive Action where
  | lookUp (name : String) (scope : Scope) (pos : Position)
  | valueOf (name : String) (scope : Scope)
  | define (scope : Scope) (name : String) (value : Value)
  | assign (name : String) (value : Value) (scope : Scope)
  | erase (scope : Scope) (name : String)
  | enclose (outer : Scope) (b : Bindings)
  | newClosure (name : Option String) (params : List String) (body : List Stmt) (scope : Scope)
  | newArray (elements : Array Value)
  | newHash (pairs : Pairs)
  | insert (pairs : Pairs) (key value : Value)
  | index (pos : Position) (collection i : Value)
  | negate (pos : Position) (v : Value)
  | operate (pos : Position) (op : BinaryOp) (a b : Value)
  | raise (pos : Position) (v : Value)
  | closure (id : Nat)
  | elements (id : Nat)
  | isImported (key : String)
  | site
  /-- A native function that starts no task. -/
  | native (f : Native) (args : List Value) (scope : Scope)

namespace Action

/-- What an action leads to. -/
@[reducible] def Result : Action → Type
  | lookUp .. | valueOf .. | newClosure .. | newArray _ | newHash _ | index .. | negate ..
  | operate .. | raise .. | native .. => Value
  | define .. | erase .. => Unit
  | assign .. | isImported _ => Bool
  | enclose .. => Scope
  | insert .. => Pairs
  | closure _ => Closure
  | elements _ => List Value
  | site => Position

/-- The run of a native function that starts no task. -/
def runNative (setting : Setting σ) (f : Native) (args : List Value)
    (scope : Scope) : RunOn σ Value :=
  match f with
  | .update => Run.updateName args scope
  | .host => Run.host setting args
  | .print => do Run.writeOut setting.terminal (← Run.joined args)
  | .printError => do Run.writeErr setting.terminal (← Run.joined args)
  | .readLine => Run.promptLine setting.terminal args
  | .length => Run.length args
  | .push => Run.push args
  | .pop => Run.pop args
  | .shift => Run.shift args
  | .unshift => Run.unshift args
  | .slice => Run.slice args
  | .arguments => Run.arguments args
  | .keys => Run.keys args
  | .str => Run.str args
  | .newLine => return .str "\n"
  | .importUnit | .eval | .forEach => return .invalid

/-- The run of an action. -/
def run (setting : Setting σ) : (a : Action) → RunOn σ a.Result
  | lookUp name scope pos => Run.lookUp name scope pos
  | valueOf name scope => return ((← get).scopes.get? scope name).getD .null
  | define scope name value => Run.modifyScopes (·.define scope name value)
  | assign name value scope => Run.assign name value scope
  | erase scope name => Run.modifyScopes (·.erase scope name)
  | enclose outer b => Run.enclose outer b
  | newClosure name params body scope => do
    Run.newClosure ⟨name, params, body, scope, (← Run.control).file⟩
  | newArray es => Run.newArray es
  | newHash pairs => Run.newHash pairs
  | insert pairs key value => Run.answer (·.insert? pairs key value)
  | index pos collection i => Run.index pos collection i
  | negate pos v => Run.negate pos v
  | operate pos op a b => Run.operate pos op a b
  | raise pos v => Run.raise pos v
  | closure id => return (← Run.heap).closure id
  | elements id => return ((← Run.heap).array id).toList
  | isImported key => return decide (key ∈ (← Run.control).imports)
  | site => return (← Run.control).site
  | native f args scope => runNative setting f args scope

end Action

/-! ### Brackets -/

/-- How a task is set off from the one that starts it. -/
inductive Bracket where
  /-- A round of a loop. -/
  | round
  /-- A native function that is called at a position. -/
  | native (pos : Position)
  /-- The body of a function that is called with arguments. -/
  | body (f : Closure) (args : List Value)
  /-- A call on behalf of a native function. -/
  | settled
  /-- A text that is run. -/
  | source
  /-- A unit that is imported. -/
  | unit (key : String)
  /-- A program in a file. -/
  | program (file : String)

namespace Bracket

/-- Where a run stands inside a bracket. -/
def enter (b : Bracket) (c : Control) : Control :=
  match b with
  | round | settled => c
  | native pos => { c with site := pos }
  | body f args => { c with frames := ⟨f.name, args⟩ :: c.frames, file := f.file }
  | source => { c with sources := c.sources + 1 }
  | unit key => { c with imports := key :: c.imports }
  | program file => { c with file }

/-- Where a run stands behind a bracket that was entered at `c` and is left at `now`. -/
def leave (b : Bracket) (c now : Control) : Control :=
  match b with
  | round | settled => now
  | native _ => { now with site := c.site }
  | body .. => { now with frames := now.frames.tail, file := c.file }
  | source => { now with sources := now.sources - 1 }
  | unit _ => { now with imports := now.imports.tail }
  | program _ => { now with file := c.file }

/-- What becomes of what unwinds out of a bracket. -/
def land (b : Bracket) (u : Unwind) : Except Unwind Value :=
  match b, u with
  | body .., .ret v | settled, .ret v | program _, .ret v => .ok v
  | body f _, .fault e => .error (.fault (e.inFile f.file))
  | settled, .fault e | program _, .fault e => .ok (.error e)
  | _, u => .error u

/-- The machine inside a bracket. -/
def opened (b : Bracket) (m : Machine σ) : Machine σ :=
  { m with control := b.enter m.control }

/-- The machine behind a bracket that was entered with `m` and is left with `now`. -/
def closed (b : Bracket) (m now : Machine σ) : Machine σ :=
  { now with control := b.leave m.control now.control }

/-- What a bracket that was entered with `m` makes of the outcome inside. -/
def outcome (b : Bracket) (m : Machine σ) (r : Outcome σ Value) : Outcome σ Value :=
  match r with
  | .ok v m' => .ok v (b.closed m m')
  | .error u m' =>
    match b.land u with
    | .ok v => .ok v (b.closed m m')
    | .error u => .error u (b.closed m m')

/-- What a bracket makes of the run of the task inside. -/
def run (b : Bracket) (inner : RunOn σ Value) : RunOn σ Value := fun m =>
  b.outcome m (inner (b.opened m))

/-- A round of a loop is run where the loop is. -/
theorem round_run (inner : RunOn σ Value) :
  round.run inner = inner
  := by
  funext m
  unfold run
  rw [show opened _ m = m from rfl]
  rcases inner m with ⟨v, m'⟩ | ⟨u, m'⟩
  · rfl
  · cases u
    all_goals rfl

/-- A native function is run with the position of its call, and the position from before comes
back. -/
theorem native_run (pos : Position) (inner : RunOn σ Value) :
  (native pos).run inner
    = (do
      let site := (← Run.control).site
      Run.between (fun c => { c with site := pos }) (fun c => { c with site }) inner)
  := by
  funext m
  rw [Run.control_bind, Run.between_apply]
  unfold run opened enter
  rcases inner _ with ⟨v, m'⟩ | ⟨u, m'⟩
  · rfl
  · cases u
    all_goals rfl

/-- A body is run inside a further frame and in the file of its function, and both are taken
back. -/
theorem body_run (f : Closure) (args : List Value) (inner : RunOn σ Value) :
  (body f args).run inner
    = (do
      let file := (← Run.control).file
      Run.returning f.file <|
        Run.between (fun c => { c with frames := ⟨f.name, args⟩ :: c.frames, file := f.file })
          (fun c => { c with frames := c.frames.tail, file }) inner)
  := by
  funext m
  rw [Run.control_bind, Run.returning_apply, Run.between_apply]
  unfold run opened enter
  rcases inner _ with ⟨v, m'⟩ | ⟨u, m'⟩
  · rfl
  · cases u
    all_goals rfl

/-- What is settled is run and settled. -/
theorem settled_run (inner : RunOn σ Value) :
  settled.run inner = Run.settle inner
  := by
  funext m
  rw [Run.settle_apply]
  unfold run
  rw [show opened _ m = m from rfl]
  rcases inner m with ⟨v, m'⟩ | ⟨u, m'⟩
  · rfl
  · cases u
    all_goals rfl

/-- A text is run with one more counted as running, and one less behind it. -/
theorem source_run (inner : RunOn σ Value) :
  source.run inner
    = Run.between (fun c => { c with sources := c.sources + 1 })
      (fun c => { c with sources := c.sources - 1 }) inner
  := by
  funext m
  rw [Run.between_apply]
  unfold run opened enter
  rcases inner _ with ⟨v, m'⟩ | ⟨u, m'⟩
  · rfl
  · cases u
    all_goals rfl

/-- A unit is run while it is noted as being imported. -/
theorem unit_run (key : String) (inner : RunOn σ Value) :
  (unit key).run inner
    = Run.between (fun c => { c with imports := key :: c.imports })
      (fun c => { c with imports := c.imports.tail }) inner
  := by
  funext m
  rw [Run.between_apply]
  unfold run opened enter
  rcases inner _ with ⟨v, m'⟩ | ⟨u, m'⟩
  · rfl
  · cases u
    all_goals rfl

/-- A program is run in its file and settled, and the file from before comes back. -/
theorem program_run (name : String) (inner : RunOn σ Value) :
  (program name).run inner
    = (do
      let file := (← Run.control).file
      Run.between (fun c => { c with file := name }) (fun c => { c with file })
        (Run.settle inner))
  := by
  funext m
  rw [Run.control_bind, Run.between_apply, Run.settle_apply]
  unfold run opened enter
  rcases inner _ with ⟨v, m'⟩ | ⟨u, m'⟩
  · rfl
  · cases u
    all_goals rfl

end Bracket

/-! ### Plans -/

/-- The actions that are gone through and the tasks that are started. -/
inductive Plan (α : Type) where
  | ret (a : α)
  /-- Returns from the function that is running. -/
  | leave (v : Value)
  | stop (f : Fault)
  | act (a : Action) (next : a.Result → Plan α)
  /-- Counts a step. -/
  | tick (pos : Position) (next : Plan α)
  /-- Goes on with `full` if no more calls and texts may be nested. -/
  | room (full : Nat → Plan α) (next : Plan α)
  | call {y : Yield} (t : Task y) (next : y.Of → Plan α)
  | within (b : Bracket) (t : Task .value) (next : Value → Plan α)

namespace Plan

/-- A plan that fails with a fault at a position. -/
def fail {α : Type} (cause : Cause) (pos : Position) : Plan α :=
  stop (.placed cause pos)

/-- The run of a plan, in which tasks are run by `start`. -/
def run (setting : Setting σ) (start : {y : Yield} → Task y → RunOn σ y.Of) {α : Type} :
    Plan α → RunOn σ α
  | ret a => pure a
  | leave v => throw (.ret v)
  | stop f => throw (.fault f)
  | act a next => do (next (← a.run setting)).run setting start
  | tick pos next => do
    Run.tick setting pos
    next.run setting start
  | room full next => do
    if setting.options.maxDepth ≤ (← Run.control).depth then
      (full setting.options.maxDepth).run setting start
    else
      next.run setting start
  | call t next => do (next (← start t)).run setting start
  | within b t next => do (next (← b.run (start t))).run setting start

end Plan

namespace Task

open Plan

/-- The plan of a statement. -/
def statementPlan (s : Stmt) (scope : Scope) : Plan Value :=
  match s with
  | .define _ name value =>
    .call (.expr value scope) fun v => .act (.define scope name v) fun _ => .ret .null
  | .ret _ none => .leave .null
  | .ret _ (some value) => .call (.expr value scope) .leave
  | .expr _ value => .call (.expr value scope) .ret
  | .block _ body => .call (.block body scope) .ret
  | .use pos name =>
    .call (.unit name scope) fun
      | .error f => .stop (f.located pos)
      | v => .ret v

/-- The plan of an expression. -/
def exprPlan (e : Expr) (scope : Scope) : Plan Value :=
  match e with
  | .name pos name => .act (.lookUp name scope pos) .ret
  | .num _ value => .ret (.num (Numeral.nearest value))
  | .str _ content => .ret (.str content)
  | .bool _ value => .ret (.bool value)
  | .null _ => .ret .null
  | .unary pos op operand => .call (.unary pos op operand scope) .ret
  | .binary pos op left right => .call (.binary pos op left right scope) .ret
  | .cond _ test yes no =>
    .call (.expr test scope) fun v =>
      if v.truthy then
        .call (.block yes scope) .ret
      else
        match no with
        | some no => .call (.block no scope) .ret
        | none => .ret .null
  | .loop pos test body => .call (.loop pos test body .null scope) .ret
  | .func _ name params body => .act (.newClosure name params body scope) .ret
  | .call pos callee args =>
    .call (.expr callee scope) fun f =>
      .call (.all args scope) fun values =>
        .call (.apply f values scope pos) .ret
  | .array _ elements =>
    .call (.all elements scope) fun values => .act (.newArray values.toArray) .ret
  | .hash _ es => .call (.entries es #[] scope) fun found => .act (.newHash found) .ret
  | .index pos collection i =>
    .call (.expr collection scope) fun c =>
      .call (.expr i scope) fun v => .act (.index pos c v) .ret
  | .assign pos name value =>
    .call (.expr value scope) fun v =>
      .act (.assign name v scope) fun found =>
        if found then .ret v else fail (.undeclaredName name) pos
  | .decorated _ decorator declaration => .call (.decorated decorator declaration scope) .ret

/-- The plan of a unary operator. -/
def unaryPlan (pos : Position) (op : UnaryOp) (operand : Expr) (scope : Scope) : Plan Value :=
  match op with
  | .delete =>
    match operand with
    | .name _ name => .act (.erase scope name) fun _ => .ret .null
    | _ => .ret .null
  | .negate => .call (.expr operand scope) fun v => .act (.negate pos v) .ret
  | .not => .call (.expr operand scope) fun v => .ret (.bool !v.truthy)
  | .typeOf => .call (.expr operand scope) fun v => .ret (.str v.kind.name)
  | .throw => .call (.expr operand scope) fun v => .act (.raise pos v) .ret

/-- The plan of a native function. -/
def nativePlan (setting : Setting σ) (f : Native) (args : List Value) (scope : Scope) :
    Plan Value :=
  match f with
  | .importUnit =>
    match args with
    | .str name :: _ => .call (.unit name scope) .ret
    | _ => .ret .invalid
  | .eval =>
    match args with
    | .str code :: _ =>
      if setting.options.allowEval then .call (.text code "<eval>" scope) .ret
      else .ret (.failure .evalRefused)
    | _ => .ret .invalid
  | .forEach => .call (.overElements args scope) .ret
  | f => .act (.native f args scope) .ret

/-- The plan of a task. -/
def plan (setting : Setting σ) {y : Yield} : Task y → Plan y.Of
  | statements [] _ => .ret .null
  | statements [s] scope => .call (.statement s scope) .ret
  | statements (s :: rest) scope =>
    .call (.statement s scope) fun _ => .call (.statements rest scope) .ret
  | statement s scope => statementPlan s scope
  | block body scope =>
    .act (.enclose scope []) fun inner => .call (.statements body inner) .ret
  | expr e scope => exprPlan e scope
  | unary pos op operand scope => unaryPlan pos op operand scope
  | binary pos op left right scope =>
    .call (.expr left scope) fun a =>
      if op = .and && !a.truthy then
        .ret (.bool false)
      else if op = .or && a.truthy then
        .ret (.bool true)
      else
        .call (.expr right scope) fun b =>
          if op = .and || op = .or then .ret (.bool b.truthy) else .act (.operate pos op a b) .ret
  | loop pos test body last scope =>
    .call (.expr test scope) fun v =>
      if v.truthy then
        .tick pos <|
          .within .round (.block body scope) fun v => .call (.loop pos test body v scope) .ret
      else
        .ret last
  | .all [] _ => .ret []
  | .all (e :: rest) scope =>
    .call (.expr e scope) fun v => .call (.all rest scope) fun values => .ret (v :: values)
  | .entries [] found _ => .ret found
  | .entries ((key, value) :: rest) found scope =>
    .call (.expr key scope) fun k =>
      .call (.expr value scope) fun v =>
        .act (.insert found k v) fun found => .call (.entries rest found scope) .ret
  | decorated decorator declaration scope =>
    .call (.expr decorator scope) fun f =>
      match declaration.declaredName? with
      | none => fail .undecoratable declaration.pos
      | some name =>
        .call (.declared declaration name scope) fun v =>
          .call (.apply f [v] scope decorator.pos) fun wrapped =>
            .act (.define scope name wrapped) fun _ => .ret wrapped
  | declared declaration name scope =>
    match declaration with
    | .define .. =>
      .call (.statement declaration scope) fun _ => .act (.valueOf name scope) .ret
    | .expr _ inner => .call (.expr inner scope) .ret
    | _ => fail .undecoratable declaration.pos
  | apply callee args scope pos =>
    match callee with
    | .native f =>
      .within (.native pos) (.native f args scope) fun
        | .error f => .stop (f.located pos)
        | v => .ret v
    | .func id => .call (.closure id args pos) .ret
    | v => fail (.notCallable v.kind) pos
  | closure id args pos =>
    .act (.closure id) fun f =>
      if args.length ≠ f.params.length then
        fail (.arity f.name f.params.length args.length) pos
      else
        .room (fun limit => fail (.depthExceeded limit) pos) <|
          .tick pos <|
            .act (.enclose f.scope (.ofList (f.params.zip args))) fun scope =>
              .within (.body f args) (.statements f.body scope) .ret
  | native f args scope => nativePlan setting f args scope
  | overElements args scope =>
    match args with
    | .array id :: callback :: _ =>
      .act (.elements id) fun elements =>
        match callback with
        | .func f =>
          .act (.closure f) fun c =>
            .call (.forEach callback (min c.params.length 3) (.array id) elements 0 scope) .ret
        | .native _ => .call (.forEach callback 1 (.array id) elements 0 scope) .ret
        | _ => .ret (.failure (.notCallable callback.kind))
    | _ => .ret .invalid
  | forEach _ _ _ [] _ _ => .ret .null
  | forEach callback arity array (element :: rest) i scope =>
    .call (.call callback ([element, .num (Float.ofNat i), array].take arity) scope) fun
      | .error f => .ret (.error f)
      | _ => .call (.forEach callback arity array rest (i + 1) scope) .ret
  | call callee args scope =>
    .act .site fun site => .within .settled (.apply callee args scope site) .ret
  | text code file scope =>
    .room (fun limit => .ret (.failure (.depthExceeded limit))) <|
      match Program.parse code file with
      | (_, e :: _) => .ret (.error (.ofSyntaxError e file))
      | (p, []) => .within .source (.program p scope) .ret
  | unit name scope =>
    match setting.unit? name with
    | none => .ret (.failure (.importFailed name))
    | some (key, code) =>
      .act (.isImported key) fun imported =>
        if imported then
          .ret (.failure (.circularImport name))
        else
          .within (.unit key) (.text code name scope) .ret
  | program p scope =>
    .within (.program p.file) (.statements p.statements scope) fun
      | .error f => .ret (.error (f.inFile p.file))
      | v => .ret v

/-- What a native function does: import a unit, run a text, go over elements, act without starting a
task, or nothing. -/
theorem nativePlan_cases (setting : Setting σ) (f : Native) (args : List Value) (scope : Scope) :
  (∃ name rest, f = .importUnit ∧ args = .str name :: rest
    ∧ nativePlan setting f args scope = .call (.unit name scope) .ret)
  ∨ (∃ code rest, f = .eval ∧ args = .str code :: rest ∧ setting.options.allowEval = true
    ∧ nativePlan setting f args scope = .call (.text code "<eval>" scope) .ret)
  ∨ (f = .forEach ∧ nativePlan setting f args scope = .call (.overElements args scope) .ret)
  ∨ nativePlan setting f args scope = .act (.native f args scope) .ret
  ∨ ∃ v, (v = .invalid ∨ v = .failure .evalRefused) ∧ nativePlan setting f args scope = .ret v
  := by
  have hinvalid : ∃ v, (v = .invalid ∨ v = .failure .evalRefused)
      ∧ (.ret .invalid : Plan Value) = .ret v := ⟨_, .inl rfl, rfl⟩
  cases f
  case importUnit =>
    rcases args with _ | ⟨v, rest⟩
    · exact .inr (.inr (.inr (.inr hinvalid)))
    · cases v
      case str name => exact .inl ⟨name, rest, rfl, rfl, rfl⟩
      all_goals exact .inr (.inr (.inr (.inr hinvalid)))
  case eval =>
    rcases args with _ | ⟨v, rest⟩
    · exact .inr (.inr (.inr (.inr hinvalid)))
    · cases v
      case str code =>
        by_cases heval : setting.options.allowEval = true
        · refine .inr (.inl ⟨code, rest, rfl, rfl, heval, ?_⟩)
          simp only [nativePlan, if_pos heval]
        · refine .inr (.inr (.inr (.inr ⟨_, .inr rfl, ?_⟩)))
          simp only [nativePlan, if_neg heval]
      all_goals exact .inr (.inr (.inr (.inr hinvalid)))
  case forEach => exact .inr (.inr (.inl ⟨rfl, rfl⟩))
  all_goals exact .inr (.inr (.inr (.inl rfl)))

variable {setting : Setting σ} {y : Yield}

/-- Without fuel nothing is run. -/
theorem run_zero (t : Task y) :
  t.run setting 0 = throw .exhausted
  := by
  cases t
  all_goals
    simp only [run, Run.evalStatements, Run.evalStatement, Run.evalBlock, Run.eval, Run.evalUnary,
      Run.evalBinary, Run.evalLoop, Run.evalAll, Run.evalEntries, Run.evalDecorated,
      Run.evalDeclared, Run.apply, Run.callClosure, Run.callNative, Run.callForEach, Run.forEach,
      Run.call, Run.runText, Run.importUnit, Run.runProgram]

/-! ### Tasks run their plans -/

section

-- Both sides are laid open: the plan of the task, and what running it comes to.
attribute [local simp] run plan Plan.run

/-- Statements run their plan. -/
theorem run_succ_statements (n : Nat) (ss : List Stmt) (scope : Scope) :
  run setting (n + 1) (statements ss scope)
    = (plan setting (statements ss scope)).run setting (Task.run setting n)
  := by
  rcases ss with _ | ⟨s, _ | ⟨s', rest⟩⟩
  · simp [Run.evalStatements]
  · simp [Run.evalStatements]
  · simp [Run.evalStatements, Run.discard_bind]

/-- A statement runs its plan. -/
theorem run_succ_statement (n : Nat) (s : Stmt) (scope : Scope) :
  run setting (n + 1) (statement s scope)
    = (plan setting (statement s scope)).run setting (Task.run setting n)
  := by
  simp only [run, Run.evalStatement, plan]
  rcases s with ⟨pos, x, value⟩ | ⟨pos, _ | value⟩ | ⟨pos, value⟩ | ⟨pos, body⟩ | ⟨pos, unit⟩
  all_goals simp only [statementPlan, Plan.run, bind_pure]
  · rfl
  · apply bind_congr
    intro v
    cases v
    all_goals rfl

/-- An expression runs its plan. -/
theorem run_succ_expr (n : Nat) (e : Expr) (scope : Scope) :
  run setting (n + 1) (expr e scope)
    = (plan setting (expr e scope)).run setting (Task.run setting n)
  := by
  simp only [run, Run.eval, plan]
  cases e
  all_goals simp only [exprPlan, Plan.run, bind_pure]
  case cond no =>
    apply bind_congr
    intro v
    split
    · simp only [Plan.run, bind_pure]
    · cases no
      all_goals simp only [Plan.run, bind_pure]
  case assign pos x value =>
    apply bind_congr
    intro v
    apply bind_congr
    intro found
    split
    all_goals rfl
  all_goals rfl

/-- A unary operator runs its plan. -/
theorem run_succ_unary (n : Nat) (pos : Position) (op : UnaryOp) (operand : Expr) (scope : Scope) :
  run setting (n + 1) (unary pos op operand scope)
    = (plan setting (unary pos op operand scope)).run setting (Task.run setting n)
  := by
  simp only [run, Run.evalUnary, plan]
  cases op
  all_goals simp only [unaryPlan, Plan.run, bind_pure, Action.run]
  cases operand
  all_goals rfl

/-- A binary operator runs its plan. -/
theorem run_succ_binary (n : Nat) (pos : Position) (op : BinaryOp) (left right : Expr)
    (scope : Scope) :
  run setting (n + 1) (binary pos op left right scope)
    = (plan setting (binary pos op left right scope)).run setting (Task.run setting n)
  := by
  simp only [run, Run.evalBinary, plan, Plan.run]
  apply bind_congr
  intro a
  split
  · rfl
  · split
    · rfl
    · simp only [Plan.run]
      apply bind_congr
      intro b
      split
      · rfl
      · simp only [Plan.run, bind_pure]
        rfl

/-- A loop runs its plan. -/
theorem run_succ_loop (n : Nat) (pos : Position) (test : Expr) (body : List Stmt) (last : Value)
    (scope : Scope) :
  run setting (n + 1) (loop pos test body last scope)
    = (plan setting (loop pos test body last scope)).run setting (Task.run setting n)
  := by
  simp only [run, Run.evalLoop, plan, Plan.run]
  apply bind_congr
  intro a
  split
  · simp only [Plan.run, bind_pure, Bracket.round_run]
  · rfl

/-- A list of expressions runs its plan. -/
theorem run_succ_all (n : Nat) (es : List Expr) (scope : Scope) :
  run setting (n + 1) (.all es scope)
    = (plan setting (.all es scope)).run setting (Task.run setting n)
  := by
  cases es
  all_goals simp [Run.evalAll]

/-- The entries of a hash run their plan. -/
theorem run_succ_entries (n : Nat) (es : List (Expr × Expr)) (pairs : Pairs) (scope : Scope) :
  run setting (n + 1) (.entries es pairs scope)
    = (plan setting (.entries es pairs scope)).run setting (Task.run setting n)
  := by
  cases es
  all_goals simp only [run, Run.evalEntries, plan, Plan.run, bind_pure]
  rfl

/-- A decorated declaration runs its plan. -/
theorem run_succ_decorated (n : Nat) (decorator : Expr) (declaration : Stmt) (scope : Scope) :
  run setting (n + 1) (decorated decorator declaration scope)
    = (plan setting (decorated decorator declaration scope)).run setting (Task.run setting n)
  := by
  simp only [run, Run.evalDecorated, plan, Plan.run]
  apply bind_congr
  intro f
  cases declaration.declaredName?
  all_goals rfl

/-- A declaration behind a decorator runs its plan. -/
theorem run_succ_declared (n : Nat) (declaration : Stmt) (name : String) (scope : Scope) :
  run setting (n + 1) (declared declaration name scope)
    = (plan setting (declared declaration name scope)).run setting (Task.run setting n)
  := by
  simp only [run, Run.evalDeclared, plan]
  cases declaration
  all_goals simp only [Plan.run, bind_pure, Run.discard_bind]
  all_goals rfl

/-- A call of a value runs its plan. -/
theorem run_succ_apply (n : Nat) (callee : Value) (args : List Value) (scope : Scope)
    (pos : Position) :
  run setting (n + 1) (apply callee args scope pos)
    = (plan setting (apply callee args scope pos)).run setting (Task.run setting n)
  := by
  simp only [run, Run.apply, plan]
  cases callee
  case native f =>
    simp only [Plan.run, Bracket.native_run, bind_assoc]
    apply bind_congr
    intro c
    apply bind_congr
    intro v
    cases v
    all_goals rfl
  all_goals simp only [Plan.run, bind_pure]
  all_goals rfl

/-- A call of a function runs its plan. -/
theorem run_succ_closure (n : Nat) (id : Nat) (args : List Value) (pos : Position) :
  run setting (n + 1) (closure id args pos)
    = (plan setting (closure id args pos)).run setting (Task.run setting n)
  := by
  simp only [run, Run.callClosure, plan, Run.deepen_eq]
  funext m
  rw [Run.heap_bind, Run.control_bind]
  change _ = Plan.run setting _ (if args.length ≠ (m.heap.closure id).params.length then _
    else _) m
  split
  · rfl
  · change _ = (if setting.options.maxDepth ≤ m.control.depth then _ else _ : RunOn σ Value) m
    split
    · rfl
    · simp only [Plan.run, bind_pure, Action.run, Bracket.body_run]
      rcases htick : Run.tick setting pos m with ⟨_, m₁⟩ | ⟨u, m₁⟩
      all_goals simp only [bind, EStateM.bind, htick]
      obtain ⟨k, rfl⟩ := Run.exists_eq_of_tick htick
      rfl

/-- A native function runs its plan. -/
theorem run_succ_native (n : Nat) (f : Native) (args : List Value) (scope : Scope) :
  run setting (n + 1) (native f args scope)
    = (plan setting (native f args scope)).run setting (Task.run setting n)
  := by
  simp only [run, Run.callNative, plan]
  cases f
  all_goals simp only [nativePlan, Plan.run, bind_pure]
  case importUnit =>
    rcases args with _ | ⟨v, args⟩
    · rfl
    · cases v
      all_goals simp only [Plan.run, bind_pure]
  case eval =>
    rcases args with _ | ⟨v, args⟩
    · rfl
    · cases v
      case str code =>
        cases setting.options.allowEval
        · rfl
        · simp only [if_true, Plan.run, bind_pure]
      all_goals rfl
  all_goals rfl

/-- Going through the elements of an array runs its plan. -/
theorem run_succ_overElements (n : Nat) (args : List Value) (scope : Scope) :
  run setting (n + 1) (overElements args scope)
    = (plan setting (overElements args scope)).run setting (Task.run setting n)
  := by
  simp only [run, Run.callForEach, plan]
  rcases args with _ | ⟨_ | _ | _ | _ | id | _ | _ | _ | _, _ | ⟨callback, args⟩⟩
  case cons.array.cons =>
    cases callback
    all_goals simp only [Plan.run, Action.run, bind_assoc, pure_bind, bind_pure]
    all_goals rfl
  all_goals rfl

/-- Going on with the elements of an array runs its plan. -/
theorem run_succ_forEach (n : Nat) (callback : Value) (arity : Nat) (array : Value)
    (elements : List Value) (i : Nat) (scope : Scope) :
  run setting (n + 1) (forEach callback arity array elements i scope)
    = (plan setting (forEach callback arity array elements i scope)).run setting
      (Task.run setting n)
  := by
  cases elements with
  | nil => simp [Run.forEach]
  | cons element rest =>
      simp only [run, Run.forEach, plan, Plan.run]
      apply bind_congr
      intro v
      cases v
      all_goals simp only [Plan.run, bind_pure]

/-- A call of a callback runs its plan. -/
theorem run_succ_call (n : Nat) (callee : Value) (args : List Value) (scope : Scope) :
  run setting (n + 1) (call callee args scope)
    = (plan setting (call callee args scope)).run setting (Task.run setting n)
  := by
  simp only [run, Run.call, plan, Plan.run, bind_pure, Bracket.settled_run]
  rfl

/-- A text runs its plan. -/
theorem run_succ_text (n : Nat) (code file : String) (scope : Scope) :
  run setting (n + 1) (text code file scope)
    = (plan setting (text code file scope)).run setting (Task.run setting n)
  := by
  simp only [run, Run.runText, plan, Plan.run]
  apply bind_congr
  intro c
  split
  · rfl
  · rcases Program.parse code file with ⟨p, _ | ⟨e, es⟩⟩
    · simp only [Plan.run, bind_pure, Run.deepen_eq, Bracket.source_run]
    · rfl

/-- An import runs its plan. -/
theorem run_succ_unit (n : Nat) (name : String) (scope : Scope) :
  run setting (n + 1) (unit name scope)
    = (plan setting (unit name scope)).run setting (Task.run setting n)
  := by
  simp only [run, Run.importUnit, plan]
  rcases setting.unit? name with _ | ⟨key, code⟩
  · rfl
  · simp only [Plan.run, Action.run, pure_bind, bind_assoc]
    apply bind_congr
    intro c
    simp only [decide_eq_true_eq]
    split
    · rfl
    · simp only [Plan.run, Bracket.unit_run, bind_pure]

/-- A program runs its plan. -/
theorem run_succ_program (n : Nat) (p : Program) (scope : Scope) :
  run setting (n + 1) (program p scope)
    = (plan setting (program p scope)).run setting (Task.run setting n)
  := by
  simp only [run, Run.runProgram, plan, Plan.run, Bracket.program_run, bind_assoc]
  apply bind_congr
  intro c
  apply bind_congr
  intro v
  cases v
  all_goals rfl

/-- A task with one more unit of fuel runs its plan. -/
theorem run_succ (n : Nat) (t : Task y) :
  t.run setting (n + 1) = (t.plan setting).run setting (Task.run setting n)
  := by
  cases t with
  | statements ss scope => exact run_succ_statements n ss scope
  | statement s scope => exact run_succ_statement n s scope
  | block body scope => simp [Run.evalBlock, Action.run]
  | expr e scope => exact run_succ_expr n e scope
  | unary pos op operand scope => exact run_succ_unary n pos op operand scope
  | binary pos op left right scope => exact run_succ_binary n pos op left right scope
  | loop pos test body last scope => exact run_succ_loop n pos test body last scope
  | all es scope => exact run_succ_all n es scope
  | entries es pairs scope => exact run_succ_entries n es pairs scope
  | decorated decorator declaration scope => exact run_succ_decorated n decorator declaration scope
  | declared declaration name scope => exact run_succ_declared n declaration name scope
  | apply callee args scope pos => exact run_succ_apply n callee args scope pos
  | closure id args pos => exact run_succ_closure n id args pos
  | native f args scope => exact run_succ_native n f args scope
  | overElements args scope => exact run_succ_overElements n args scope
  | forEach callback arity array elements i scope =>
      exact run_succ_forEach n callback arity array elements i scope
  | call callee args scope => exact run_succ_call n callee args scope
  | text code file scope => exact run_succ_text n code file scope
  | unit name scope => exact run_succ_unit n name scope
  | program p scope => exact run_succ_program n p scope

end

end Task

/-- The plan of an evaluation. -/
def Program.plan (setting : Setting σ) (program : Program) (scope : Scope) : Plan Value :=
  if setting.options.useLibrary then
    .call (.unit Library.name scope) fun
      | .error f => .ret (.error f)
      | _ => .call (.program program scope) .ret
  else
    .call (.program program scope) .ret

/-- The machine on which an evaluation starts. -/
def Machine.anew (m : Machine σ) : Machine σ :=
  { m with control := .initial }

/-- An evaluation runs the plan of its program, with the count of steps and the site set back. -/
theorem Run.evaluate_apply (setting : Setting σ) (n : Nat) (program : Program) (scope : Scope)
    (m : Machine σ) :
  Run.evaluate setting n program scope m
    = (program.plan setting scope).run setting (Task.run setting n) m.anew
  := by
  have heq : Run.evaluate setting n program scope
      = (do
        Run.modifyControl fun _ => .initial
        (program.plan setting scope).run setting (Task.run setting n)) := by
    unfold evaluate Program.plan
    apply bind_congr
    intro _
    split
    · simp only [Plan.run]
      apply bind_congr
      intro v
      cases v
      all_goals simp only [Plan.run, bind_pure]
    · simp only [Plan.run, bind_pure]
  rw [heq]
  rfl

end Scriptlet
