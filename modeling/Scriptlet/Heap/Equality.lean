import Scriptlet.Heap

/-!
# Equality

When two values are equal: numbers, booleans and strings by value, functions by identity, errors
by their message, arrays element by element, and hashes if each key of the one has an equal key
in the other with an equal value.

Containers may hold themselves, so a pair of containers that is being compared already counts as
equal.  Looking up a key starts a comparison of its own, which knows nothing of the pairs around
it.  That is why a comparison of hashes that hold themselves in their keys need not end: the
answer is `none` then.
-/

namespace Scriptlet

/-- The place of the first pair whose key fulfils `p`: none if there is no such pair, and no
answer at all if a question about a key before it has none. -/
def slotWith (p : Value → Option Bool) (pairs : Pairs) : Option (Option Nat) :=
  go 0 pairs.toList
where
  /-- The place of the first pair of a list that starts at place `i`. -/
  go (i : Nat) : List (Value × Value) → Option (Option Nat)
    | [] => some none
    | (key, _) :: rest =>
      match p key with
      | none => none
      | some true => some (some i)
      | some false => go (i + 1) rest

/-- Whether all of a list fulfil `p`: no answer if a question before the first one that does not
has none. -/
def everyWith (p : α → Option Bool) : List α → Option Bool
  | [] => some true
  | x :: xs =>
    match p x with
    | none => none
    | some true => everyWith p xs
    | some false => some false

/-- Whether one of a list fulfils `p`: no answer if a question before the first one that does
has none. -/
def someWith (p : α → Option Bool) : List α → Option Bool
  | [] => some false
  | x :: xs =>
    match p x with
    | none => none
    | some true => some true
    | some false => someWith p xs

namespace Heap

variable (h : Heap)

/-- Whether two values are equal if the pairs of containers in `seen` are, for at most `n`
comparisons nested in one another. -/
def equalWithin : Nat → List (Container × Container) → Value → Value → Option Bool
  | 0, _, _, _ => none
  | n + 1, seen, a, b =>
    match a, b with
    | .null, .null => some true
    | .bool x, .bool y => some (x == y)
    | .num x, .num y => some (x == y)
    | .str x, .str y => some (x == y)
    | .array i, .array j =>
      let pair := (Container.array i, Container.array j)
      if i = j ∨ pair ∈ seen then
        some true
      else if (h.array i).size = (h.array j).size then
        everyWith (fun (x, y) => equalWithin n (pair :: seen) x y)
          ((h.array i).toList.zip (h.array j).toList)
      else
        some false
    | .hash i, .hash j =>
      let pair := (Container.hash i, Container.hash j)
      if i = j ∨ pair ∈ seen then
        some true
      else if (h.hash i).size = (h.hash j).size then
        everyWith
          (fun (key, x) =>
            match slotWith (fun k => equalWithin n [] k key) (h.hash j) with
            | none => none
            | some none => some false
            | some (some place) =>
              equalWithin n (pair :: seen) x (((h.hash j)[place]?.map Prod.snd).getD .null))
          (h.hash i).toList
      else
        some false
    | .func i, .func j => some (i == j)
    | .native f, .native g => some (f == g)
    | .error e, .error f => some (e.message == f.message)
    | _, _ => some false

/-- How many comparisons can be nested in one that ends.  A comparison, and each one that it
starts to look up a key, meets a pair of containers at most once before it stops, and one that
is started twice inside itself never ends. -/
def comparisons : Nat :=
  (h.size * h.size + 2) * (h.size * h.size + 2)

/-- Whether two values are equal, none if the comparison does not end. -/
def equal? (a b : Value) : Option Bool :=
  h.equalWithin h.comparisons [] a b

/-- The place of a key among the pairs of a hash. -/
def slot? (pairs : Pairs) (key : Value) : Option (Option Nat) :=
  slotWith (fun k => h.equal? k key) pairs

/-- The value of a key. -/
def find? (pairs : Pairs) (key : Value) : Option (Option Value) :=
  (h.slot? pairs key).map fun slot => slot.bind fun i => pairs[i]?.map Prod.snd

/-- Whether a key has a value. -/
def contains? (pairs : Pairs) (key : Value) : Option Bool :=
  (h.slot? pairs key).map Option.isSome

/-- The pairs with `value` for the value of `key`: in the place of the first key equal to it, or
behind all others if there is none. -/
def insert? (pairs : Pairs) (key value : Value) : Option Pairs :=
  (h.slot? pairs key).map fun
    | none => pairs.push (key, value)
    | some i => pairs.modify i fun (k, _) => (k, value)

end Heap

end Scriptlet
