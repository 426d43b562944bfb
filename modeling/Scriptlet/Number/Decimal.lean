/-!
# Decimals

Numbers in decimal notation, and their written forms: in full, with all zeros spelled out, or
with a power of ten.
-/

namespace Scriptlet

/-- The number `digits · 10 ^ exponent`. -/
structure Decimal where
  /-- The significant digits, as one natural number. -/
  digits : Nat
  /-- The power of ten of the last digit. -/
  exponent : Int

namespace Decimal

/-- The decimal in full: no power of ten, and no point if there is nothing behind it. -/
def full (d : Decimal) : String :=
  let digits := (toString d.digits).toList
  let point := digits.length + d.exponent
  if 0 ≤ d.exponent then
    String.ofList (digits ++ List.replicate d.exponent.toNat '0')
  else if 0 < point then
    String.ofList (digits.take point.toNat ++ '.' :: digits.drop point.toNat)
  else
    String.ofList ('0' :: '.' :: List.replicate (-point).toNat '0' ++ digits)

/-- The decimal with one digit before the point and a power of ten. -/
def scientific (d : Decimal) : String :=
  let digits := (toString d.digits).toList
  let point := digits.length - 1 + d.exponent
  let fraction := if digits.length ≤ 1 then [] else '.' :: digits.drop 1
  String.ofList (digits.take 1 ++ fraction) ++ "e" ++ toString point

end Decimal

end Scriptlet
