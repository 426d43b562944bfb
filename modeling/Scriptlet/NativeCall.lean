import Scriptlet.Operation

/-!
# Calls of native functions

What the native functions do that run no code of the program.  A native function reports a fault
by returning it as a value without a position; its caller reports it at the position of the
call.
-/

namespace Scriptlet

/-- The error value of a cause. -/
def Value.failure (cause : Cause) : Value :=
  .error (.bare cause)

/-- The error value of a call with arguments that a native function has no use for. -/
def Value.invalid : Value :=
  .failure .invalidArguments

namespace Run

variable {σ : Type}

/-- Writes a text to the output. -/
def writeOut (terminal : Terminal σ) (text : String) : RunOn σ Value := do
  match ← exchange (terminal.writeOut text) with
  | .ok _ => return .null
  | .error reason => return .failure (.outFailed reason)

/-- Writes a text to the errors. -/
def writeErr (terminal : Terminal σ) (text : String) : RunOn σ Value := do
  match ← exchange (terminal.writeErr text) with
  | .ok _ => return .null
  | .error reason => return .failure (.errFailed reason)

/-- Reads a line, `null` at the end of the input. -/
def readLine (terminal : Terminal σ) : RunOn σ Value := do
  match ← exchange terminal.readLine with
  | .ok (some line) => return .str line
  | .ok none => return .null
  | .error reason => return .failure (.inputFailed reason)

/-- The texts of all values, one after the other. -/
def joined (values : List Value) : RunOn σ String := do
  let h ← heap
  return String.join (values.map h.stringify)

/-- Reads a line after writing the first argument, if there is one. -/
def promptLine (terminal : Terminal σ) (args : List Value) : RunOn σ Value := do
  match args with
  | [] => readLine terminal
  | prompt :: _ =>
    match ← writeOut terminal (← joined [prompt]) with
    | .error f => return .error f
    | _ => readLine terminal

/-- The number of elements of an array, pairs of a hash or characters of a string. -/
def length (args : List Value) : RunOn σ Value := do
  match args with
  | .array id :: _ => return .num (Float.ofNat ((← heap).array id).size)
  | .hash id :: _ => return .num (Float.ofNat ((← heap).hash id).size)
  | .str s :: _ => return .num (Float.ofNat s.length)
  | _ => return .invalid

/-- Puts the other arguments behind the elements of an array. -/
def push (args : List Value) : RunOn σ Value := do
  match args with
  | .array id :: rest =>
    modifyHeap (·.modifyArray id fun elements => elements ++ rest.toArray)
    return .array id
  | _ => return .invalid

/-- Puts the other arguments in front of the elements of an array. -/
def unshift (args : List Value) : RunOn σ Value := do
  match args with
  | .array id :: rest =>
    modifyHeap (·.modifyArray id fun elements => rest.toArray ++ elements)
    return .array id
  | _ => return .invalid

/-- Takes the last element out of an array. -/
def pop (args : List Value) : RunOn σ Value := do
  match args with
  | .array id :: _ =>
    let last := ((← heap).array id).back?
    modifyHeap (·.modifyArray id Array.pop)
    return last.getD .null
  | _ => return .invalid

/-- Takes the first element out of an array. -/
def shift (args : List Value) : RunOn σ Value := do
  match args with
  | .array id :: _ =>
    let first := ((← heap).array id)[0]?
    modifyHeap (·.modifyArray id fun elements => elements.extract 1 elements.size)
    return first.getD .null
  | _ => return .invalid

/-- The place that an argument stands for as a bound of a sequence, `other` if it is missing or
`null`, and none if it is not an integer. -/
def boundOf (arg : Option Value) (length other : Nat) : Option Nat :=
  match arg with
  | none | some .null => some other
  | some (.num x) => (integerOf? x).map fun n => Index.bound n length
  | some _ => none

/-- The two places between which a slice lies. -/
def bounds (args : List Value) (length : Nat) : Option (Nat × Nat) := do
  let start ← boundOf args[1]? length 0
  let stop ← boundOf args[2]? length length
  return (start, max start stop)

/-- The elements of an array or the characters of a string between two bounds. -/
def slice (args : List Value) : RunOn σ Value := do
  match args with
  | .array id :: _ =>
    let elements := (← heap).array id
    match bounds args elements.size with
    | some (start, stop) => newArray (elements.extract start stop)
    | none => return .invalid
  | .str s :: _ =>
    let characters := s.toList
    match bounds args characters.length with
    | some (start, stop) =>
      return .str (String.ofList ((characters.take stop).drop start))
    | none => return .invalid
  | _ => return .invalid

/-- Changes the innermost value of a name. -/
def updateName (args : List Value) (scope : Scope) : RunOn σ Value := do
  match args with
  | .str name :: value :: _ =>
    if ← assign name value scope then
      return value
    else
      return .failure (.undeclaredName name)
  | _ => return .invalid

/-- The arguments of the innermost call, or of the innermost call of a function of a given
name; none outside of any such call. -/
def argumentsOf (frames : List Frame) (name : Option String) : List Value :=
  match frames.find? fun frame => name.isNone || frame.name == name with
  | some frame => frame.args
  | none => []

/-- The arguments of a running call as an array. -/
def arguments (args : List Value) : RunOn σ Value := do
  let frames := (← control).frames
  match args with
  | [] => newArray (argumentsOf frames none).toArray
  | .str name :: _ => newArray (argumentsOf frames (some name)).toArray
  | _ => return .invalid

/-- The keys of a hash as an array. -/
def keys (args : List Value) : RunOn σ Value := do
  match args with
  | .hash id :: _ => newArray (((← heap).hash id).map Prod.fst)
  | _ => return .invalid

/-- The text of the only argument. -/
def str (args : List Value) : RunOn σ Value := do
  match args with
  | [v] => return .str ((← heap).stringify v)
  | _ => return .invalid

/-- Hands code to the host if the options allow it. -/
def host (setting : Setting σ) (args : List Value) : RunOn σ Value := do
  match args with
  | .str code :: _ =>
    if setting.options.allowHost then
      match ← exchange (setting.terminal.evalHost code) with
      | .ok output => return .str output
      | .error reason => return .failure (.hostFailed reason)
    else
      return .failure .hostRefused
  | _ => return .invalid

end Run

end Scriptlet
