import Scriptlet.Value

/-!
# Scopes

A scope binds names to values and lies inside other scopes.  The bindings of all scopes are kept
in one store; a scope is known by the number of its own bindings followed by the numbers of those
around it, so that the scopes inside a common one share its bindings.
-/

namespace Scriptlet

/-- Names with their values, each name once. -/
abbrev Bindings := List (String × Value)

namespace Bindings

/-- The value of a name. -/
def get? (b : Bindings) (name : String) : Option Value :=
  List.lookup name b

/-- Whether a name has a value. -/
def has (b : Bindings) (name : String) : Bool :=
  (b.get? name).isSome

/-- The bindings with `value` for the value of `name`. -/
def set (b : Bindings) (name : String) (value : Value) : Bindings :=
  match b with
  | [] => [(name, value)]
  | (n, v) :: rest => if name = n then (n, value) :: rest else (n, v) :: set rest name value

/-- The bindings without the one of `name`. -/
def erase (b : Bindings) (name : String) : Bindings :=
  List.filter (fun (n, _) => n ≠ name) b

/-- The bindings of the names in a list to the values beside them. -/
def ofList (pairs : List (String × Value)) : Bindings :=
  pairs.foldl (fun b (name, value) => b.set name value) []

/-- The bindings in the order of their names. -/
def sorted (b : Bindings) : Bindings :=
  List.mergeSort b fun (m, _) (n, _) => decide (m ≤ n)

end Bindings

/-- A scope: the number of its bindings, then the numbers of the bindings around it. -/
abbrev Scope := List Nat

/-- The bindings of all scopes. -/
structure Scopes where
  /-- The bindings by their numbers. -/
  tables : Array Bindings

namespace Scopes

/-- No scopes. -/
def empty : Scopes := ⟨#[]⟩

/-- The bindings of number `id`. -/
def bindings (s : Scopes) (id : Nat) : Bindings :=
  s.tables.getD id []

/-- Changes the bindings of number `id`. -/
def modify (s : Scopes) (id : Nat) (f : Bindings → Bindings) : Scopes :=
  ⟨s.tables.modify id f⟩

/-- A new scope with the given bindings inside `outer`; a root scope if `outer` is empty. -/
def enclose (s : Scopes) (outer : Scope) (b : Bindings) : Scope × Scopes :=
  (s.tables.size :: outer, ⟨s.tables.push b⟩)

/-- The number of the innermost bindings of a scope that have `name`. -/
def holder? (s : Scopes) (scope : Scope) (name : String) : Option Nat :=
  scope.find? fun id => (s.bindings id).has name

/-- The innermost value of `name` in a scope. -/
def get? (s : Scopes) (scope : Scope) (name : String) : Option Value :=
  scope.findSome? fun id => (s.bindings id).get? name

/-- Binds `name` in a scope itself, whatever the scopes around it bind. -/
def define (s : Scopes) (scope : Scope) (name : String) (value : Value) : Scopes :=
  match scope with
  | [] => s
  | id :: _ => s.modify id (·.set name value)

/-- Whether `name` has a value in a scope. -/
def has (s : Scopes) (scope : Scope) (name : String) : Bool :=
  (s.holder? scope name).isSome

/-- Changes the innermost value of `name` in a scope, nothing if it has none. -/
def update (s : Scopes) (scope : Scope) (name : String) (value : Value) : Scopes :=
  match s.holder? scope name with
  | some id => s.modify id (·.set name value)
  | none => s

/-- Takes away the innermost binding of `name` in a scope, nothing if it has none. -/
def erase (s : Scopes) (scope : Scope) (name : String) : Scopes :=
  match s.holder? scope name with
  | some id => s.modify id (·.erase name)
  | none => s

/-- The bindings of a scope itself, in the order of their names. -/
def locals (s : Scopes) (scope : Scope) : Bindings :=
  match scope with
  | [] => []
  | id :: _ => (s.bindings id).sorted

end Scopes

end Scriptlet
