/-!
# Indices

Which element an index stands for, and which elements lie between two bounds.  A negative
number counts from the end.  Indices are machine words: an integer beyond the range of 64 bits
is the nearest one in it.
-/

namespace Scriptlet

namespace Index

/-- The integer of 64 bits that is nearest to `n`. -/
def word (n : Int) : Int :=
  max (-9223372036854775808) (min n 9223372036854775807)

/-- The number that an index stands for in a sequence, counted from its start. -/
def fromStart (n : Int) (length : Nat) : Int :=
  if word n < 0 then length + word n else word n

/-- The place of the element that an index stands for, none if there is no such element. -/
def place? (n : Int) (length : Nat) : Option Nat :=
  let i := fromStart n length
  if 0 ≤ i ∧ i < length then some i.toNat else none

/-- The place that a bound stands for, the start or the end of the sequence if it lies before or
behind it. -/
def bound (n : Int) (length : Nat) : Nat :=
  (max 0 (min (fromStart n length) length)).toNat

end Index

end Scriptlet
