import Scriptlet.Number.Numeral
import Scriptlet.Number.Shortest

/-!
# Texts of numbers

How a program writes a number, how an error about an index does, and how a listing of a syntax
tree does.
-/

namespace Scriptlet

/-- A float with the fewest digits that read back, never with a power of ten; infinities are
`inf` and `-inf`. -/
def plainText (x : Float) : String :=
  match Double.ofFloat? x with
  | some d => (if d.negative then "-" else "") ++ d.shortest.full
  | none => if x.isNaN then "NaN" else if x < 0 then "-inf" else "inf"

/-- A number as a program writes it: an integer below `10 ^ 15` as such, and zero without a
sign; any other number with the fewest digits that read back, never with a power of ten. -/
def numberText (x : Float) : String :=
  if x.isNaN then
    "NaN"
  else if x.isInf then
    if x < 0 then "-Infinity" else "Infinity"
  else
    match integerOf? x with
    | some n => if n.natAbs < Nat.pow 10 15 then toString n else plainText x
    | none => plainText x

/-- The number of a literal in a listing of a syntax tree: it always has a point or a power of
ten. -/
def literalText (n : Nat) : String :=
  let x := Numeral.nearest n
  match Double.ofFloat? x with
  | none => "inf"
  | some d =>
    let decimal := d.shortest
    if Nat.pow 10 16 ≤ (integerOf? x).getD 0 then decimal.scientific
    else decimal.full ++ ".0"

end Scriptlet
