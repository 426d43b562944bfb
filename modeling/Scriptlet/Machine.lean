import Scriptlet.Disk
import Scriptlet.Heap.Equality
import Scriptlet.Heap.Inspect
import Scriptlet.Library
import Scriptlet.Streams

/-!
# Machines

The state of a running program and what can stop it.  A run works on a machine and ends with a
value or unwinds; the machine it has made so far is kept either way.
-/

namespace Scriptlet

/-- A call that is running. -/
structure Frame where
  /-- The name of the function, if it has one. -/
  name : Option String
  /-- The arguments it was called with. -/
  args : List Value

/-- Where a run stands: what is running at the moment, and how much has been. -/
structure Control where
  /-- The units that are being imported, innermost first. -/
  imports : List String
  /-- The calls that are running, innermost first. -/
  frames : List Frame
  /-- How many texts are being run. -/
  sources : Nat
  /-- How many calls and rounds of loops have been started. -/
  steps : Nat
  /-- The position of the call of the native function that is running. -/
  site : Position
  /-- The file that is being run. -/
  file : String

/-- How a run stands before it has done anything. -/
def Control.initial : Control :=
  ⟨[], [], 0, 0, .nowhere, "<unknown>"⟩

/-- How many calls and texts are nested. -/
def Control.depth (c : Control) : Nat :=
  c.frames.length + c.sources

/-- The state of a running program.  The state of its streams is of type `σ`. -/
structure Machine (σ : Type := Streams) where
  /-- The arrays, hashes and functions. -/
  heap : Heap
  /-- The bindings of names. -/
  scopes : Scopes
  /-- The state of the streams. -/
  streams : σ
  /-- Where the run stands. -/
  control : Control

/-- A machine without values and names. -/
def Machine.initial {σ : Type} (streams : σ) : Machine σ :=
  ⟨.empty, .empty, streams, .initial⟩

/-- What a run can consult and never changes. -/
structure Setting (σ : Type := Streams) where
  /-- The options of the run. -/
  options : Options
  /-- What can be asked of the streams. -/
  terminal : Terminal σ
  /-- The files that can be imported. -/
  disk : Disk

/-- Why a run stops before its end. -/
inductive Unwind where
  /-- A fault, on its way out of the program. -/
  | fault (f : Fault)
  /-- A `return`, on its way out of the function. -/
  | ret (v : Value)
  /-- A comparison of two values that never ends. -/
  | endless
  /-- The fuel was used up. -/
  | exhausted

/-- A run of a part of a program, on streams whose state is of type `σ`. -/
abbrev RunOn (σ : Type) := EStateM Unwind (Machine σ)

/-- A run on buffered streams. -/
abbrev Run := RunOn Streams

namespace Run

variable {σ α : Type}

/-- Stops with a fault at a position. -/
def fail (cause : Cause) (position : Position) : RunOn σ α :=
  throw (.fault (.placed cause position))

/-- The heap. -/
def heap : RunOn σ Heap :=
  return (← get).heap

/-- Where the run stands. -/
def control : RunOn σ Control :=
  return (← get).control

/-- Changes where the run stands. -/
def modifyControl (f : Control → Control) : RunOn σ Unit :=
  modify fun m => { m with control := f m.control }

/-- Changes the bindings of names. -/
def modifyScopes (f : Scopes → Scopes) : RunOn σ Unit :=
  modify fun m => { m with scopes := f m.scopes }

/-- Changes the heap. -/
def modifyHeap (f : Heap → Heap) : RunOn σ Unit :=
  modify fun m => { m with heap := f m.heap }

/-- Asks something of the streams. -/
def exchange (request : σ → α × σ) : RunOn σ α :=
  modifyGet fun ⟨heap, scopes, streams, control⟩ =>
    let (answer, streams) := request streams
    (answer, ⟨heap, scopes, streams, control⟩)

/-- A new array. -/
def newArray (elements : Array Value) : RunOn σ Value :=
  modifyGet fun m =>
    let (v, heap) := m.heap.newArray elements
    (v, { m with heap })

/-- A new hash. -/
def newHash (pairs : Pairs) : RunOn σ Value :=
  modifyGet fun m =>
    let (v, heap) := m.heap.newHash pairs
    (v, { m with heap })

/-- A new function. -/
def newClosure (c : Closure) : RunOn σ Value :=
  modifyGet fun m =>
    let (v, heap) := m.heap.newClosure c
    (v, { m with heap })

/-- A new scope inside `outer`. -/
def enclose (outer : Scope) (b : Bindings) : RunOn σ Scope :=
  modifyGet fun m =>
    let (scope, scopes) := m.scopes.enclose outer b
    (scope, { m with scopes })

/-- Changes the innermost value of a name in a scope; whether there is one. -/
def assign (name : String) (value : Value) (scope : Scope) : RunOn σ Bool := do
  if (← get).scopes.has scope name then
    modifyScopes (·.update scope name value)
    return true
  else
    return false

/-- The answer to a question about the heap, which may be one that never ends. -/
def answer (ask : Heap → Option α) : RunOn σ α := do
  match ask (← heap) with
  | some a => return a
  | none => throw .endless

/-- Runs `run` between two changes of where the run stands, the second one however it ends. -/
@[inline] def between (enter leave : Control → Control) (run : RunOn σ α) : RunOn σ α := do
  modifyControl enter
  try
    let a ← run
    modifyControl leave
    return a
  catch e =>
    modifyControl leave
    throw e

/-- Runs `run` to a value: a `return` gives its value, and a fault becomes one. -/
@[inline] def settle (run : RunOn σ Value) : RunOn σ Value :=
  tryCatch run fun
    | .fault f => return .error f
    | .ret v => return v
    | e => throw e

end Run

end Scriptlet
