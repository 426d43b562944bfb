import Scriptlet.Scope

/-!
# The heap

The arrays, hashes and functions of a running program by their numbers.  Nothing is ever taken
out of a heap, so a number keeps its meaning.
-/

namespace Scriptlet

/-- The pairs of a hash, in the order in which their keys came in. -/
abbrev Pairs := Array (Value × Value)

/-- A function with the scope and the file it was written in. -/
structure Closure where
  /-- The name of the function, if it has one. -/
  name : Option String
  /-- The names of its parameters. -/
  params : List String
  /-- Its body. -/
  body : List Stmt
  /-- The scope around its body. -/
  scope : Scope
  /-- The file its body stands in. -/
  file : String

/-- The arrays, hashes and functions of a running program. -/
structure Heap where
  /-- The arrays by their numbers. -/
  arrays : Array (Array Value)
  /-- The hashes by their numbers. -/
  hashes : Array Pairs
  /-- The functions by their numbers. -/
  closures : Array Closure

namespace Heap

/-- A heap without arrays, hashes and functions. -/
def empty : Heap := ⟨#[], #[], #[]⟩

/-- The elements of array `id`. -/
def array (h : Heap) (id : Nat) : Array Value :=
  h.arrays.getD id #[]

/-- The pairs of hash `id`. -/
def hash (h : Heap) (id : Nat) : Pairs :=
  h.hashes.getD id #[]

/-- The function `id`. -/
def closure (h : Heap) (id : Nat) : Closure :=
  h.closures.getD id ⟨none, [], [], [], ""⟩

/-- A new array. -/
def newArray (h : Heap) (elements : Array Value) : Value × Heap :=
  (.array h.arrays.size, { h with arrays := h.arrays.push elements })

/-- A new hash. -/
def newHash (h : Heap) (pairs : Pairs) : Value × Heap :=
  (.hash h.hashes.size, { h with hashes := h.hashes.push pairs })

/-- A new function. -/
def newClosure (h : Heap) (c : Closure) : Value × Heap :=
  (.func h.closures.size, { h with closures := h.closures.push c })

/-- Changes the elements of array `id`. -/
def modifyArray (h : Heap) (id : Nat) (f : Array Value → Array Value) : Heap :=
  { h with arrays := h.arrays.modify id f }

/-- The number of arrays and hashes. -/
def size (h : Heap) : Nat :=
  h.arrays.size + h.hashes.size

end Heap

/-- An array or a hash of a heap. -/
inductive Container where
  | array (id : Nat)
  | hash (id : Nat)
deriving DecidableEq

end Scriptlet
