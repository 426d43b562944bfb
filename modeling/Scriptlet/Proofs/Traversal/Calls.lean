import Scriptlet.Proofs.Cleanness
import Scriptlet.Proofs.Library
import Scriptlet.Proofs.Running.Applying
import Scriptlet.Proofs.Running.Isolation

/-!
# Going through arrays

`map`, `filter` and `reduce` call a function with the elements of an array, in order.  What they
come to follows from what these calls come to, each on the machine that the one before has led to
(`Traversal.Calls`).
-/

namespace Scriptlet

variable {σ : Type}

namespace Combinator

/-- The names that are read again when the callback has been called for an element, where it was
called. -/
def inside : Combinator → List String
  | map | reduce => []
  | filter => ["x", "push", "result"]

/-- The names that are read again behind that, for the next element or at the end. -/
def outside : Combinator → List String
  | map => ["f", "push", "result"]
  | filter => ["keep", "push", "result"]
  | reduce => ["f"]

end Combinator

/-- A call of a function of the library that goes through an array. -/
structure Traversal (σ : Type) where
  /-- The function. -/
  combinator : Combinator
  /-- The scope that has the names of the library. -/
  home : Scope
  /-- The array. -/
  array : Nat
  /-- What is called with the elements. -/
  callback : Value
  /-- The value with which `reduce` starts. -/
  initial : Value
  /-- The machine on which the body of the function is begun. -/
  start : Machine σ

namespace Traversal

variable (T : Traversal σ)

/-- The arguments of the call. -/
def given : List Value :=
  match T.combinator with
  | .map | .filter => [.array T.array, T.callback]
  | .reduce => [.array T.array, T.callback, T.initial]

/-- The function that is called. -/
def function : Closure :=
  ⟨some T.combinator.name, T.combinator.params, T.combinator.body, T.home, Library.name⟩

/-- The number of the bindings of its parameters and its variable. -/
def table : Nat :=
  T.start.scopes.tables.size

/-- The number of the array that it makes. -/
def result : Nat :=
  T.start.heap.arrays.size

/-- The scope of its body. -/
def scope : Scope :=
  T.table :: T.home

/-- The function that it hands to `forEach`. -/
def each : Closure :=
  ⟨none, ["x"], T.combinator.each, T.scope, Library.name⟩

/-- The number of that function. -/
def inner : Nat :=
  T.start.heap.closures.size

/-! ### What has been made so far -/

section

/- The elements for which the callback has been called, with what it has returned. -/
variable (done : List (Value × Value))

/-- The last value that has been returned. -/
def latest : Value :=
  (done.map Prod.snd).getLastD T.initial

/-- The elements of the array that is made. -/
def collected : List Value :=
  match T.combinator with
  | .map => done.map Prod.snd
  | .filter => (done.filter fun p => p.2.truthy).map Prod.fst
  | .reduce => []

/-- The value of the variable. -/
def own : Value :=
  match T.combinator with
  | .map | .filter => .array T.result
  | .reduce => T.latest done

/-- The bindings of the parameters and the variable. -/
def bindings : Bindings :=
  match T.combinator with
  | .map => [("xs", .array T.array), ("f", T.callback), ("result", .array T.result)]
  | .filter => [("xs", .array T.array), ("keep", T.callback), ("result", .array T.result)]
  | .reduce =>
    [("xs", .array T.array), ("f", T.callback), ("initial", T.initial), ("acc", T.latest done)]

/-- The arguments with which the callback is called for an element. -/
def args (v : Value) : List Value :=
  match T.combinator with
  | .map | .filter => [v]
  | .reduce => [T.latest done, v]

end

/-! ### The machines in between -/

/-- The machine on which `forEach` is called. -/
def begun : Machine σ :=
  let m := (Bracket.body T.function T.given).opened T.start
  { m with
    heap := match T.combinator with
      | .map | .filter => (m.heap.newArray #[]).2
      | .reduce => m.heap
    scopes := (m.scopes.enclose T.home (T.bindings [])).2 }

/-- The machine on which `forEach` goes through the array. -/
def opened : Machine σ :=
  (Bracket.native T.combinator.site).opened
    { T.begun with heap := (T.begun.heap.newClosure T.each).2 }

/-- The machine on which the callback is called for an element, if the step has been counted. -/
def entered (m : Machine σ) (v : Value) : Machine σ :=
  (Bracket.body T.each [v]).opened { m with scopes := (m.scopes.enclose T.scope [("x", v)]).2 }

/-- The machine after something has been made of the value `w` that has been returned for `v`. -/
def took (v w : Value) (m : Machine σ) : Machine σ :=
  match T.combinator with
  | .map => { m with heap := m.heap.modifyArray T.result (· ++ #[w]) }
  | .filter =>
    if w.truthy then
      { m with
        heap := m.heap.modifyArray T.result (· ++ #[v])
        scopes := (m.scopes.enclose T.scope []).2 }
    else m
  | .reduce => { m with scopes := m.scopes.modify T.table (·.set "acc" w) }

/-- The machine after the call of the function. -/
def closed (m : Machine σ) : Machine σ :=
  (Bracket.body T.function T.given).closed T.start
    ((Bracket.native T.combinator.site).closed T.begun m)

/-! ### Calls of the callback -/

/-- Whether what the function works with is on `m'` as it was on `m`, where the callback was called
with table `x` for its element: the names that are read again stand for the same values, what
`reduce` assigns to is its own variable, and the array that is made is the same. -/
structure Spares (x : Nat) (m m' : Machine σ) : Prop where
  inside : ∀ name ∈ T.combinator.inside,
    m'.scopes.get? (x :: T.scope) name = m.scopes.get? (x :: T.scope) name
  outside : ∀ name ∈ T.combinator.outside, m'.scopes.get? T.scope name = m.scopes.get? T.scope name
  holder : T.combinator = .reduce → m'.scopes.holder? (x :: T.scope) "acc" = some T.table
  array : T.combinator ≠ .reduce → m'.heap.arrays[T.result]? = m.heap.arrays[T.result]?

/-- Whether the callback, called for `v` when it has been called for the elements in `done`, returns
`w`, and has left the names of the library alone, and if `spare` holds, what the function works
with; and whether `m'` is the machine on which the next element is come to. -/
def Round (setting : Setting σ) (spare : Prop) (done : List (Value × Value)) (m : Machine σ)
    (v w : Value) (m' : Machine σ) : Prop :=
  ∃ m₁ m₂, Run.tick setting T.combinator.site m = .ok () m₁
    ∧ (Task.apply T.callback (T.args done v) (m₁.scopes.tables.size :: T.scope)
        T.combinator.pos).Ends setting (T.entered m₁ v) (.ok w m₂)
    ∧ Library.Installed m₂ T.home
    ∧ (spare → T.Spares m₁.scopes.tables.size (T.entered m₁ v) m₂)
    ∧ m' = (Bracket.body T.each [v]).closed m₁ (T.took v w m₂)

/-- Whether the callback, called for some elements in order, returns the values beside them. -/
inductive Calls (setting : Setting σ) (spare : Prop) :
    List (Value × Value) → Machine σ → List (Value × Value) → Machine σ → Prop where
  | nil {done : List (Value × Value)} {m : Machine σ} : Calls setting spare done m [] m
  | cons {done rest : List (Value × Value)} {m m₁ m' : Machine σ} {v w : Value} :
      T.Round setting spare done m v w m₁ → Calls setting spare (done ++ [(v, w)]) m₁ rest m' →
      Calls setting spare done m ((v, w) :: rest) m'

end Traversal

end Scriptlet
