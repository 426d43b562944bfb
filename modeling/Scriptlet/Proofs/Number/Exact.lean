import Mathlib
import Scriptlet.Number.Double

/-!
# Exact values

The number that a float stands for, as its sign, its mantissa and its exponent give it.  The
sign, the mantissa and the exponent that are read off the bits of a float are these, and the
integer that a float is taken for is its number, if that is an integer.
-/

namespace Scriptlet

open Float.Model UnpackedFloat

/-- The number that a float stands for, none for an infinity and for what is not a number. -/
def rational? (x : Float) : Option ℚ :=
  match x.toModel.unpack with
  | .finite sign mantissa exponent _ => some (sign.apply mantissa * 2 ^ exponent)
  | .zero _ => some 0
  | .infinity _ => none
  | .notANumber => none

/-- The number that a sign, a mantissa and an exponent stand for. -/
def Double.value (d : Double) : ℚ :=
  (if d.negative then -1 else 1) * d.mantissa * 2 ^ d.exponent

/-- The exponent stands in eleven bits behind the mantissa. -/
theorem toNat_unpackExponent (b : BitVec 64) :
  (@unpackExponent Format.binary64 b).toNat = b.toNat / 2 ^ 52 % 2 ^ 11
  := by
  rw [unpackExponent_def]
  simp [BitVec.extractLsb'_toNat, Nat.shiftRight_eq_div_pow]

/-- The mantissa is the last fifty-two bits. -/
theorem toNat_unpackMantissa (b : BitVec 64) :
  (@unpackMantissa Format.binary64 b).toNat = b.toNat % 2 ^ 52
  := by
  rw [unpackMantissa_def]
  simp [BitVec.extractLsb'_toNat]

/-- The sign is the first bit. -/
theorem toNat_unpackSign (b : BitVec 64) :
  (@unpackSign Format.binary64 b).toNat = b.toNat / 2 ^ 63 % 2
  := by
  rw [unpackSign_def]
  simp [BitVec.extractLsb'_toNat, Nat.shiftRight_eq_div_pow]

/-- The bit that is not written adds its weight to the mantissa. -/
theorem toNat_implicit (m : BitVec 52) :
  (1#1 ++ m).toNat = m.toNat + 2 ^ 52
  := by
  rw [BitVec.toNat_append, ← Nat.shiftLeft_add_eq_or_of_lt m.isLt, Nat.add_comm]
  simp [Nat.shiftLeft_eq]

/-- The sign of a float is that of its highest bit. -/
theorem apply_unpackSign (b : BitVec 64) (n : ℕ) :
  (((Sign.ofBitVec (@unpackSign Format.binary64 b)).apply n : ℤ) : ℚ)
    = (if decide (Nat.pow 2 63 ≤ b.toNat) then -1 else 1) * n
  := by
  have hsign := toNat_unpackSign b
  by_cases hb : Nat.pow 2 63 ≤ b.toNat
  · have hone : @unpackSign Format.binary64 b ≠ 0#1 := by
      intro h0
      rw [h0, BitVec.toNat_zero] at hsign
      norm_num at hb
      omega
    rw [Sign.ofBitVec, if_neg hone, decide_eq_true hb]
    simp [Sign.apply]
  · have hzero : @unpackSign Format.binary64 b = 0#1 :=
      BitVec.eq_of_toNat_eq (by rw [hsign, BitVec.toNat_zero]; norm_num at hb; omega)
    rw [Sign.ofBitVec, if_pos hzero, decide_eq_false hb]
    simp [Sign.apply]

/-- The sign, the mantissa and the exponent that are read off the bits of a float give its
value. -/
theorem rational?_eq (x : Float) :
  rational? x = (Double.ofFloat? x).map Double.value
  := by
  have hsign := apply_unpackSign x.toModel.toBits.toBitVec
  have hscale := toNat_unpackExponent x.toModel.toBits.toBitVec
  have hfraction := toNat_unpackMantissa x.toModel.toBits.toBitVec
  rw [rational?, Float.Model.unpack, UnpackedFloat.unpack, Double.ofFloat?, Float.toBits]
  have hinf : @unpackExponent Format.binary64 x.toModel.toBits.toBitVec = -1#11
      ↔ x.toModel.toBits.toNat / Nat.pow 2 52 % Nat.pow 2 11 = 2047 := by
    rw [← BitVec.toNat_inj, hscale]
    rfl
  have hzero : @unpackExponent Format.binary64 x.toModel.toBits.toBitVec = 0#11
      ↔ x.toModel.toBits.toNat / Nat.pow 2 52 % Nat.pow 2 11 = 0 := by
    rw [← BitVec.toNat_inj, hscale]
    rfl
  have hbias : ((Format.binary64.exponentBias : ℤ) + Format.binary64.mantissaBitsWithoutImplicit)
      = 1075 := rfl
  rw [hbias]
  -- the exponent field tells infinities, small numbers and the others apart
  by_cases h1 : x.toModel.toBits.toNat / Nat.pow 2 52 % Nat.pow 2 11 = 2047
  · rw [if_pos (hinf.mpr h1), if_pos h1]
    split_ifs <;> rfl
  · rw [if_neg (hinf.not.mpr h1), if_neg h1]
    by_cases h2 : x.toModel.toBits.toNat / Nat.pow 2 52 % Nat.pow 2 11 = 0
    · rw [if_pos (hzero.mpr h2), if_pos h2]
      split_ifs with h3
      · rw [h3] at hfraction
        have hnone : x.toModel.toBits.toNat % Nat.pow 2 52 = 0 := hfraction.symm
        simp [Double.value, hnone]
      · simp only [Option.map_some, Double.value, hsign, hfraction, hscale]
        have hexp : ((x.toModel.toBits.toBitVec.toNat / 2 ^ 52 % 2 ^ 11 : ℕ) : ℤ) - 1075 + 1
            = -1074 := by
          rw [show x.toModel.toBits.toBitVec.toNat / 2 ^ 52 % 2 ^ 11 = 0 from h2]
          rfl
        rw [hexp]
        rfl
    · rw [if_neg (hzero.not.mpr h2), if_neg h2]
      simp only [Option.map_some, Double.value, hsign, toNat_implicit, hfraction, hscale]
      rfl

namespace Double

variable {d : Double} {n : ℤ}

/-- With an exponent that is not negative a double is an integer. -/
theorem value_of_nonneg (h : 0 ≤ d.exponent) :
  d.value = ((if d.negative then -1 else 1) * (d.mantissa * 2 ^ d.exponent.toNat : ℕ) : ℤ)
  := by
  obtain ⟨k, hk⟩ := Int.eq_ofNat_of_zero_le h
  rw [value, hk, Int.toNat_natCast, zpow_natCast]
  push_cast
  split_ifs <;> ring

/-- With an exponent that is not positive a double is its mantissa over a power of two. -/
theorem value_mul_of_nonpos (h : d.exponent ≤ 0) :
  d.value * 2 ^ (-d.exponent).toNat = ((if d.negative then -1 else 1) * d.mantissa : ℤ)
  := by
  obtain ⟨k, hk⟩ := Int.eq_ofNat_of_zero_le (Int.neg_nonneg_of_nonpos h)
  have hexp : d.exponent = -(k : ℤ) := by rw [← hk, neg_neg]
  rw [value, hexp, neg_neg, Int.toNat_natCast, zpow_neg, zpow_natCast, mul_assoc,
    inv_mul_cancel₀ (pow_ne_zero k two_ne_zero), mul_one]
  push_cast
  split_ifs <;> ring

/-- With an exponent that is not positive a double is an integer if its mantissa is that multiple of
the power of two. -/
theorem value_eq_iff_of_nonpos (h : d.exponent ≤ 0) :
  d.value = n ↔ (if d.negative then -1 else 1) * (d.mantissa : ℤ) = n * 2 ^ (-d.exponent).toNat
  := by
  rw [← mul_left_inj' (pow_ne_zero (-d.exponent).toNat (two_ne_zero (α := ℚ))),
    value_mul_of_nonpos h]
  norm_cast

/-- The integer that a double is taken for is its value. -/
theorem integer?_eq_some_iff :
  d.integer? = some n ↔ d.value = n
  := by
  rw [integer?]
  obtain hexp | hexp := le_total 0 d.exponent
  · have hunit : Nat.pow 2 (-d.exponent).toNat = 1 := by simp [hexp]
    rw [value_of_nonneg hexp, hunit, Nat.mod_one, if_pos rfl, Nat.div_one, Option.some_inj,
      Int.cast_inj]
    rfl
  · have hone : Nat.pow 2 d.exponent.toNat = 1 := by simp [hexp]
    have hpos : 0 < 2 ^ (-d.exponent).toNat := Nat.two_pow_pos _
    rw [value_eq_iff_of_nonpos hexp, hone, Nat.mul_one, Nat.pow_eq]
    by_cases hdvd : d.mantissa % 2 ^ (-d.exponent).toNat = 0
    · rw [if_pos hdvd]
      obtain ⟨q, hq⟩ := Nat.dvd_of_mod_eq_zero hdvd
      rw [hq, Nat.mul_div_cancel_left q hpos, Option.some_inj, Nat.cast_mul, mul_left_comm,
        mul_comm n, Nat.cast_pow, Nat.cast_ofNat]
      exact (mul_right_inj' (pow_ne_zero _ two_ne_zero)).symm
    · rw [if_neg hdvd]
      refine iff_of_false (by rintro ⟨⟩) fun h => hdvd (Nat.mod_eq_zero_of_dvd ?_)
      have hsign : IsUnit (if d.negative then -1 else 1 : ℤ) := by
        split_ifs
        · exact isUnit_one.neg
        · exact isUnit_one
      have hmul := Dvd.intro_left n h.symm
      exact_mod_cast hsign.dvd_mul_left.mp hmul

end Double

/-- A float is taken for an integer exactly if that integer is its value. -/
theorem integerOf?_eq_some_iff {x : Float} {n : ℤ} :
  integerOf? x = some n ↔ rational? x = some (n : ℚ)
  := by
  rw [integerOf?, rational?_eq, Option.bind_eq_some_iff, Option.map_eq_some_iff]
  simp only [Double.integer?_eq_some_iff]

end Scriptlet
