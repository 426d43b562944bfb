/-!
# Finite doubles

A finite double is a sign, a mantissa and a power of two.  On this form the integer that a
double stands for and the remainder of a division are exact.
-/

namespace Scriptlet

/-- The number `mantissa · 2 ^ exponent`, or its opposite. -/
structure Double where
  /-- Whether the number has a minus sign. -/
  negative : Bool
  /-- The units of the number. -/
  mantissa : Nat
  /-- The power of two that one unit stands for. -/
  exponent : Int

namespace Double

/-- The sign, the mantissa and the exponent of a float, none for an infinity or a NaN. -/
def ofFloat? (x : Float) : Option Double :=
  let bits := x.toBits.toNat
  let negative := decide (Nat.pow 2 63 ≤ bits)
  let scale : Nat := bits / Nat.pow 2 52 % Nat.pow 2 11
  let fraction := bits % Nat.pow 2 52
  if scale = 2047 then
    none
  else if scale = 0 then
    some ⟨negative, fraction, -1074⟩
  else
    some ⟨negative, fraction + Nat.pow 2 52, (scale : Int) - 1075⟩

/-- The float that a number stands for.  It is exact if the number has at most 53 significant
bits and is in the range of the doubles. -/
def toFloat (d : Double) : Float :=
  let top := d.mantissa.log2
  let magnitude :=
    if d.mantissa = 0 then
      0
    else if top + d.exponent < -1022 then
      d.mantissa * Nat.pow 2 (d.exponent + 1074).toNat
    else
      let fraction := d.mantissa * Nat.pow 2 (52 - top) / Nat.pow 2 (top - 52) - Nat.pow 2 52
      (top + d.exponent + 1023).toNat * Nat.pow 2 52 + fraction
  Float.ofBits (magnitude + if d.negative then Nat.pow 2 63 else 0).toUInt64

/-- The integer that a number is, none if it has a fraction. -/
def integer? (d : Double) : Option Int :=
  let sign : Int := if d.negative then -1 else 1
  let unit := Nat.pow 2 (-d.exponent).toNat
  if d.mantissa % unit = 0 then
    some (sign * (d.mantissa / unit * Nat.pow 2 d.exponent.toNat : Nat))
  else
    none

/-- What is left of `a` after taking away `b` as often as it fits, with the sign of `a`. -/
def remainder (a b : Double) : Double :=
  let unit := min a.exponent b.exponent
  let x := a.mantissa * Nat.pow 2 (a.exponent - unit).toNat
  let y := b.mantissa * Nat.pow 2 (b.exponent - unit).toNat
  ⟨a.negative, x % y, unit⟩

end Double

/-- The integer that a float is, none if it has a fraction, is infinite or a NaN. -/
def integerOf? (x : Float) : Option Int :=
  (Double.ofFloat? x).bind Double.integer?

/-- The remainder of the division of `x` by `y`, rounded toward zero: it has the sign of `x`, is
`x` itself if `y` is infinite, and not a number if `y` is zero. -/
def remainder (x y : Float) : Float :=
  match Double.ofFloat? x, Double.ofFloat? y with
  | some a, some b => if b.mantissa = 0 then 0.0 / 0.0 else (a.remainder b).toFloat
  | some _, none => if y.isNaN then y else x
  | none, _ => 0.0 / 0.0

end Scriptlet
