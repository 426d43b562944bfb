import Scriptlet.NativeCall
import Scriptlet.Tree.Parser

/-!
# Evaluation

What the statements and expressions of a program do.  A function that evaluates spends one unit
of fuel on each step and stops as `exhausted` when none is left; otherwise its result does not
depend on the fuel.

Calls and texts may be nested as deeply as the options allow, which can be deeper than the stack
of a thread.  So one level in some hundreds is evaluated on a stack of its own (`deepen`).
-/

namespace Scriptlet

/-- The identity and the text of a unit.  A unit that comes with the interpreter is its own name,
any other one the file that its name leads to. -/
def Setting.unit? {σ : Type} (setting : Setting σ) (name : String) : Option (String × String) :=
  if name = Library.name then
    some (name, Library.text)
  else if name.startsWith Library.bundled then
    none
  else
    let file := if name.endsWith ".tiny" then name else name ++ ".tiny"
    let path := match setting.options.moduleDir with
      | some dir => Disk.join dir file
      | none => file
    match setting.disk.resolve path with
    | .ok place =>
      match setting.disk.readAt place with
      | .ok text => some (Disk.identity place, text)
      | .error _ => none
    | .error _ => none

namespace Run

variable {σ α : Type}

/-- The levels of nesting that share a stack. -/
def levelsPerStack : Nat := 256

/-- Does what `run` does, on a stack of its own if `depth` is the last level of its stack. -/
@[inline] def deepen (depth : Nat) (run : RunOn σ α) : RunOn σ α := fun m =>
  if depth % levelsPerStack = levelsPerStack - 1 then
    (Task.spawn (fun _ => run m) .dedicated).get
  else
    run m

/-- A run on a task of its own is the run. -/
theorem deepen_eq (depth : Nat) (run : RunOn σ α) :
  deepen depth run = run
  := by
  funext m
  simp [deepen, Task.spawn]

/-- Runs the body of a function: a `return` gives the value of the call, and a fault is one in
the file of the function. -/
@[inline] def returning (file : String) (run : RunOn σ Value) : RunOn σ Value :=
  tryCatch run fun
    | .ret v => return v
    | .fault f => throw (.fault (f.inFile file))
    | e => throw e

variable (setting : Setting σ)

/-- Counts a step and stops if there have been too many. -/
def tick (pos : Position) : RunOn σ Unit := do
  match setting.options.maxSteps with
  | none => return
  | some limit =>
    modifyControl fun c => { c with steps := c.steps + 1 }
    if limit < (← control).steps then
      fail (.budgetExceeded limit) pos

/-- The value of a name: what it is bound to, or else the native function of that name. -/
def lookUp (name : String) (scope : Scope) (pos : Position) : RunOn σ Value := do
  match (← get).scopes.get? scope name with
  | some v => return v
  | none =>
    match Native.ofName? name with
    | some f => return .native f
    | none => fail (.undefinedName name) pos

mutual

/-- The value of the last of the statements after all have been evaluated in order, `null` if
there are none. -/
def evalStatements : Nat → List Stmt → Scope → RunOn σ Value
  | 0, _, _ => throw .exhausted
  | _ + 1, [], _ => return .null
  | n + 1, [s], scope => evalStatement n s scope
  | n + 1, s :: rest, scope => do
    discard <| evalStatement n s scope
    evalStatements n rest scope

/-- The value of a statement. -/
def evalStatement : Nat → Stmt → Scope → RunOn σ Value
  | 0, _, _ => throw .exhausted
  | n + 1, s, scope =>
    match s with
    | .define _ name value => do
      let v ← eval n value scope
      modifyScopes (·.define scope name v)
      return .null
    | .ret _ none => throw (.ret .null)
    | .ret _ (some value) => do
      let v ← eval n value scope
      throw (.ret v)
    | .expr _ value => eval n value scope
    | .block _ body => evalBlock n body scope
    | .use pos unit => do
      match ← importUnit n unit scope with
      | .error f => throw (.fault (f.located pos))
      | v => return v

/-- The value of the last of the statements of a block, which has a scope of its own. -/
def evalBlock : Nat → List Stmt → Scope → RunOn σ Value
  | 0, _, _ => throw .exhausted
  | n + 1, body, scope => do
    let inner ← enclose scope []
    evalStatements n body inner

/-- The value of an expression. -/
def eval : Nat → Expr → Scope → RunOn σ Value
  | 0, _, _ => throw .exhausted
  | n + 1, e, scope =>
    match e with
    | .name pos name => lookUp name scope pos
    | .num _ value => return .num (Numeral.nearest value)
    | .str _ text => return .str text
    | .bool _ value => return .bool value
    | .null _ => return .null
    | .unary pos op operand => evalUnary n pos op operand scope
    | .binary pos op left right => evalBinary n pos op left right scope
    | .cond _ test yes no => do
      if (← eval n test scope).truthy then
        evalBlock n yes scope
      else
        match no with
        | some no => evalBlock n no scope
        | none => return .null
    | .loop pos test body => evalLoop n pos test body .null scope
    | .func _ name params body => do
      newClosure ⟨name, params, body, scope, (← control).file⟩
    | .call pos callee args => do
      let f ← eval n callee scope
      let values ← evalAll n args scope
      apply n f values scope pos
    | .array _ elements => do
      let values ← evalAll n elements scope
      newArray values.toArray
    | .hash _ entries => do
      let pairs ← evalEntries n entries #[] scope
      newHash pairs
    | .index pos collection i => do
      let c ← eval n collection scope
      let v ← eval n i scope
      index pos c v
    | .assign pos name value => do
      let v ← eval n value scope
      if ← assign name v scope then
        return v
      else
        fail (.undeclaredName name) pos
    | .decorated _ decorator declaration => evalDecorated n decorator declaration scope

/-- The value of a unary operator.  The operand of `delete` is a name whose innermost binding is
taken away, if there is one. -/
def evalUnary : Nat → Position → UnaryOp → Expr → Scope → RunOn σ Value
  | 0, _, _, _, _ => throw .exhausted
  | n + 1, pos, op, operand, scope => do
    match op with
    | .delete =>
      match operand with
      | .name _ name => modifyScopes (·.erase scope name)
      | _ => pure ()
      return .null
    | .negate =>
      let v ← eval n operand scope
      negate pos v
    | .not => return .bool !(← eval n operand scope).truthy
    | .typeOf => return .str (← eval n operand scope).kind.name
    | .throw =>
      let v ← eval n operand scope
      raise pos v

/-- The value of a binary operator.  `&&` and `||` evaluate their right operand only if the left
one does not decide. -/
def evalBinary : Nat → Position → BinaryOp → Expr → Expr → Scope → RunOn σ Value
  | 0, _, _, _, _, _ => throw .exhausted
  | n + 1, pos, op, left, right, scope => do
    let a ← eval n left scope
    if op = .and && !a.truthy then
      return .bool false
    else if op = .or && a.truthy then
      return .bool true
    else
      let b ← eval n right scope
      if op = .and || op = .or then return .bool b.truthy else operate pos op a b

/-- The value of the last round of a loop, `last` if there is none. -/
def evalLoop : Nat → Position → Expr → List Stmt → Value → Scope → RunOn σ Value
  | 0, _, _, _, _, _ => throw .exhausted
  | n + 1, pos, test, body, last, scope => do
    if (← eval n test scope).truthy then
      tick setting pos
      let v ← evalBlock n body scope
      evalLoop n pos test body v scope
    else
      return last

/-- The values of expressions, in order. -/
def evalAll : Nat → List Expr → Scope → RunOn σ (List Value)
  | 0, _, _ => throw .exhausted
  | _ + 1, [], _ => return []
  | n + 1, e :: rest, scope => do
    let v ← eval n e scope
    let values ← evalAll n rest scope
    return v :: values

/-- The pairs of a hash literal, put behind the ones found before. -/
def evalEntries : Nat → List (Expr × Expr) → Pairs → Scope → RunOn σ Pairs
  | 0, _, _, _ => throw .exhausted
  | _ + 1, [], pairs, _ => return pairs
  | n + 1, (key, value) :: rest, pairs, scope => do
    let k ← eval n key scope
    let v ← eval n value scope
    let pairs ← answer (·.insert? pairs k v)
    evalEntries n rest pairs scope

/-- The value of a decorated declaration: what the decorator makes of the declared value, to
which the name is bound. -/
def evalDecorated : Nat → Expr → Stmt → Scope → RunOn σ Value
  | 0, _, _, _ => throw .exhausted
  | n + 1, decorator, declaration, scope => do
    let f ← eval n decorator scope
    match declaration.declaredName? with
    | none => fail .undecoratable declaration.pos
    | some name =>
      let v ← evalDeclared n declaration name scope
      let wrapped ← apply n f [v] scope decorator.pos
      modifyScopes (·.define scope name wrapped)
      return wrapped

/-- The value that a declaration binds to `name`. -/
def evalDeclared : Nat → Stmt → String → Scope → RunOn σ Value
  | 0, _, _, _ => throw .exhausted
  | n + 1, declaration, name, scope => do
    match declaration with
    | .define .. =>
      discard <| evalStatement n declaration scope
      return ((← get).scopes.get? scope name).getD .null
    | .expr _ inner => eval n inner scope
    | _ => fail .undecoratable declaration.pos

/-- The value of a call. -/
def apply : Nat → Value → List Value → Scope → Position → RunOn σ Value
  | 0, _, _, _, _ => throw .exhausted
  | n + 1, callee, args, scope, pos =>
    match callee with
    | .native f => do
      let site := (← control).site
      let v ← between (fun c => { c with site := pos }) (fun c => { c with site })
        (callNative n f args scope)
      match v with
      | .error f => throw (.fault (f.located pos))
      | v => return v
    | .func id => callClosure n id args pos
    | v => fail (.notCallable v.kind) pos

/-- The value of a call of function `id`. -/
def callClosure : Nat → Nat → List Value → Position → RunOn σ Value
  | 0, _, _, _ => throw .exhausted
  | n + 1, id, args, pos => do
    let f := (← heap).closure id
    let c ← control
    if args.length ≠ f.params.length then
      fail (.arity f.name f.params.length args.length) pos
    else if setting.options.maxDepth ≤ c.depth then
      fail (.depthExceeded setting.options.maxDepth) pos
    else
      tick setting pos
      let scope ← enclose f.scope (.ofList (f.params.zip args))
      returning f.file <|
        between
          (fun c => { c with frames := ⟨f.name, args⟩ :: c.frames, file := f.file })
          (fun now => { now with frames := now.frames.tail, file := c.file })
          (deepen c.depth (evalStatements n f.body scope))

/-- What a native function returns. -/
def callNative : Nat → Native → List Value → Scope → RunOn σ Value
  | 0, _, _, _ => throw .exhausted
  | n + 1, f, args, scope =>
    match f with
    | .importUnit =>
      match args with
      | .str name :: _ => importUnit n name scope
      | _ => return .invalid
    | .update => updateName args scope
    | .eval =>
      match args with
      | .str text :: _ =>
        if setting.options.allowEval then runText n text "<eval>" scope
        else return .failure .evalRefused
      | _ => return .invalid
    | .host => host setting args
    | .print => do writeOut setting.terminal (← joined args)
    | .printError => do writeErr setting.terminal (← joined args)
    | .readLine => promptLine setting.terminal args
    | .length => length args
    | .push => push args
    | .pop => pop args
    | .shift => shift args
    | .unshift => unshift args
    | .slice => slice args
    | .forEach => callForEach n args scope
    | .arguments => arguments args
    | .keys => keys args
    | .str => str args
    | .newLine => return .str "\n"

/-- Calls a function with each element of an array as it is at the start, its index and the
array, as far as the function takes arguments; a native function takes one. -/
def callForEach : Nat → List Value → Scope → RunOn σ Value
  | 0, _, _ => throw .exhausted
  | n + 1, args, scope => do
    match args with
    | .array id :: callback :: _ =>
      let h ← heap
      let elements := (h.array id).toList
      match callback with
      | .func f =>
        forEach n callback (min (h.closure f).params.length 3) (.array id) elements 0 scope
      | .native _ => forEach n callback 1 (.array id) elements 0 scope
      | _ => return .failure (.notCallable callback.kind)
    | _ => return .invalid

/-- Calls `callback` with each of the elements from index `i` on, up to the first error. -/
def forEach : Nat → Value → Nat → Value → List Value → Nat → Scope → RunOn σ Value
  | 0, _, _, _, _, _, _ => throw .exhausted
  | _ + 1, _, _, _, [], _, _ => return .null
  | n + 1, callback, arity, array, element :: rest, i, scope => do
    let args := [element, .num (Float.ofNat i), array].take arity
    match ← call n callback args scope with
    | .error f => return .error f
    | _ => forEach n callback arity array rest (i + 1) scope

/-- The value of a call on behalf of a native function, at whose own call its faults are
reported. -/
def call : Nat → Value → List Value → Scope → RunOn σ Value
  | 0, _, _, _ => throw .exhausted
  | n + 1, callee, args, scope => do
    let site := (← control).site
    settle (apply n callee args scope site)

/-- The value of a text that is read under the name `file` and run. -/
def runText : Nat → String → String → Scope → RunOn σ Value
  | 0, _, _, _ => throw .exhausted
  | n + 1, text, file, scope => do
    let c ← control
    if setting.options.maxDepth ≤ c.depth then
      return .failure (.depthExceeded setting.options.maxDepth)
    else
      match Program.parse text file with
      | (_, e :: _) => return .error (.ofSyntaxError e file)
      | (program, []) =>
        between (fun c => { c with sources := c.sources + 1 })
          (fun c => { c with sources := c.sources - 1 })
          (deepen c.depth (runProgram n program scope))

/-- The value of a unit that is run in the scope that imports it. -/
def importUnit : Nat → String → Scope → RunOn σ Value
  | 0, _, _ => throw .exhausted
  | n + 1, name, scope => do
    match setting.unit? name with
    | none => return .failure (.importFailed name)
    | some (key, text) =>
      if key ∈ (← control).imports then
        return .failure (.circularImport name)
      else
        between (fun c => { c with imports := key :: c.imports })
          (fun c => { c with imports := c.imports.tail })
          (runText n text name scope)

/-- The value of a program: that of its last statement, of a `return` outside of functions, or
the error that stopped it, which is one in the file of the program. -/
def runProgram : Nat → Program → Scope → RunOn σ Value
  | 0, _, _ => throw .exhausted
  | n + 1, program, scope => do
    let file := (← control).file
    let v ← between (fun c => { c with file := program.file }) (fun c => { c with file })
      (settle (evalStatements n program.statements scope))
    match v with
    | .error f => return .error (f.inFile program.file)
    | v => return v

end

end Run

end Scriptlet
