/-!
# Numerals

The natural numbers that strings of digits write, and the doubles nearest to them.  Numerals may
be of any length.  A long one is read in halves, which takes less time than to read it digit by
digit, and gives the same number by `valueOfHalves_eq`.
-/

namespace Scriptlet

namespace Numeral

/-- The number that digits write: each half of them is read by itself, and this `n` times over. -/
def valueOfHalves : Nat → List Char → Nat
  | 0, digits => Nat.ofDigitChars 10 digits 0
  | n + 1, digits =>
    let front := digits.take (digits.length / 2)
    let back := digits.drop (digits.length / 2)
    Nat.pow 10 back.length * valueOfHalves n front + valueOfHalves n back

/-- Digits that are read by halves write the number that they write in order. -/
theorem valueOfHalves_eq (n : Nat) (digits : List Char) :
  valueOfHalves n digits = Nat.ofDigitChars 10 digits 0
  := by
  induction n generalizing digits with
  | zero => rfl
  | succ n ih =>
    simp only [valueOfHalves, ih, Nat.pow_eq]
    rw [← Nat.ofDigitChars_eq_ofDigitChars_zero, ← Nat.ofDigitChars_append, List.take_append_drop]

/-- The number that digits write, with at most some hundreds of them read one by one. -/
def value (digits : List Char) : Nat :=
  valueOfHalves (digits.length.log2 - 8) digits

/-- The value of digits is the number that they write in order. -/
theorem value_eq (digits : List Char) :
  value digits = Nat.ofDigitChars 10 digits 0
  := valueOfHalves_eq _ digits

/-- The double nearest to a natural number.  From `2 ^ 1024` on this is the infinity. -/
def nearest (n : Nat) : Float :=
  if Nat.pow 2 1024 ≤ n then 1.0 / 0.0 else Float.ofNat n

end Numeral

end Scriptlet
