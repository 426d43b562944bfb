import Scriptlet.Number.Decimal
import Scriptlet.Number.Double

/-!
# Shortest decimals

The decimal with the fewest digits that reads back as a given double.  The numbers that round to
the double form an interval, whose ends belong to it when the mantissa is even.  The grids of
multiples of `10 ^ k` are tried from the coarsest one on: if a grid has a point in the interval,
one of the two neighbours of the double on that grid is such a point, so it is enough to look at
these.  Of two points the nearer one is taken, and the greater one if both are equally near.
-/

namespace Scriptlet

namespace Double

/-- A double and the ends of the interval of numbers that round to it, in units of
`2 ^ (exponent - 2)`. -/
structure Interval where
  /-- The lower end. -/
  low : Nat
  /-- The double. -/
  mid : Nat
  /-- The upper end. -/
  high : Nat
  /-- Whether the ends round to the double too. -/
  closed : Bool

/-- The interval of a positive double.  Below a power of two the next smaller double is only
half as far away as the next greater one. -/
def interval (d : Double) : Interval :=
  let below := if d.mantissa = Nat.pow 2 52 ∧ -1074 < d.exponent then 1 else 2
  ⟨4 * d.mantissa - below, 4 * d.mantissa, 4 * d.mantissa + 2, d.mantissa % 2 = 0⟩

/-- Whether `n` units of `down / up` lie in the interval. -/
def Interval.holds (i : Interval) (up down n : Nat) : Bool :=
  if i.closed then
    i.low * up ≤ n * down && n * down ≤ i.high * up
  else
    i.low * up < n * down && n * down < i.high * up

/-- The point of the grid with units of `down / up` in the interval that is nearest to its
double, if there is one. -/
def Interval.nearest? (i : Interval) (up down : Nat) : Option Nat :=
  let n := i.mid * up / down
  match i.holds up down n, i.holds up down (n + 1) with
  | true, true => some (if (2 * n + 1) * down ≤ 2 * i.mid * up then n + 1 else n)
  | true, false => some n
  | false, true => some (n + 1)
  | false, false => none

/-- The point found on the coarsest of `tries` grids from that of the multiples of `10 ^ k`
down. -/
def search (d : Double) : Nat → Int → Decimal
  | 0, k => ⟨0, k⟩
  | tries + 1, k =>
    let up := Nat.pow 2 (d.exponent - 2).toNat * Nat.pow 10 (-k).toNat
    let down := Nat.pow 2 (2 - d.exponent).toNat * Nat.pow 10 k.toNat
    match d.interval.nearest? up down with
    | some n => ⟨n, k⟩
    | none => search d tries (k - 1)

/-- The shortest decimal that reads back as the magnitude of a double.  A power of ten above the
double is found from its binary logarithm; of the next twenty grids one is fine enough. -/
def shortest (d : Double) : Decimal :=
  if d.mantissa = 0 then
    ⟨0, 0⟩
  else
    search d 20 ((d.mantissa.log2 + d.exponent + 1) * 30103 / 100000 + 1)

end Double

end Scriptlet
