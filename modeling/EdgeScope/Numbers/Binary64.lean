import Mathlib.Algebra.Order.Floor.Semifield
import Mathlib.Data.Nat.Cast.Order.Field
import Mathlib.Data.Rat.Floor
import Mathlib.Tactic.Linarith
import Mathlib.Tactic.NormNum
import Mathlib.Tactic.Positivity

/-!
# The numbers of the binary64 format

A word of 64 bits is a sign, an exponent and a fraction. What is said of the words here is what
comparing and truncating them needs: the order of the words is that of the numbers.
-/

namespace EdgeScope.Binary64

def exponent (bits : ℕ) : ℕ := bits / 2 ^ 52 % 2 ^ 11

def fraction (bits : ℕ) : ℕ := bits % 2 ^ 52

def Finite (bits : ℕ) : Prop := exponent bits ≠ 2047

instance (bits : ℕ) : Decidable (Finite bits) := inferInstanceAs (Decidable (_ ≠ _))

/-- Normal numbers have a leading one that is not stored. -/
def significand (bits : ℕ) : ℕ := fraction bits + if exponent bits = 0 then 0 else 2 ^ 52

/-- The weight of the last bit, as a power of two. -/
def scale (bits : ℕ) : ℤ := (max (exponent bits) 1 : ℕ) - 1075

/-- The weight of the last bit. -/
def ulp (bits : ℕ) : ℚ := 2 ^ scale bits

def magnitude (bits : ℕ) : ℚ := significand bits * ulp bits

def value (bits : ℕ) : ℚ := if 2 ^ 63 ≤ bits then -magnitude bits else magnitude bits

theorem ulp_pos (bits : ℕ) : 0 < ulp bits := zpow_pos (by norm_num) _

theorem ulp_le {bits : ℕ} {n : ℤ} (h : scale bits ≤ n) : ulp bits ≤ 2 ^ n :=
  zpow_le_zpow_right₀ (by norm_num) h

theorem magnitude_nonneg (bits : ℕ) : 0 ≤ magnitude bits :=
  mul_nonneg (Nat.cast_nonneg _) (ulp_pos bits).le

theorem magnitude_eq_zero_iff (bits : ℕ) : magnitude bits = 0 ↔ significand bits = 0 := by
  rw [magnitude, mul_eq_zero, Nat.cast_eq_zero, or_iff_left (ulp_pos bits).ne']

theorem value_of_lt {bits : ℕ} (h : bits < 2 ^ 63) : value bits = magnitude bits :=
  if_neg (by omega)

theorem eq_of_significand_eq_zero {bits : ℕ} (h : bits < 2 ^ 64) (hsign : 2 ^ 63 ≤ bits)
    (hzero : significand bits = 0) : bits = 2 ^ 63 := by
  have hexponent : bits / 2 ^ 52 % 2 ^ 11 = 0 := by
    by_contra hne
    rw [significand, exponent, if_neg hne] at hzero
    exact absurd (Nat.add_eq_zero_iff.mp hzero).2 (by norm_num)
  have hfraction : bits % 2 ^ 52 = 0 := (Nat.add_eq_zero_iff.mp hzero).1
  omega

/-- The word of `-0` alone has the sign and is not negative. -/
theorem nonneg_value_iff {bits : ℕ} (h : bits < 2 ^ 64) : 0 ≤ value bits ↔ bits ≤ 2 ^ 63 := by
  unfold value
  split_ifs with hsign
  · have hnonneg := magnitude_nonneg bits
    have hzero := magnitude_eq_zero_iff bits
    constructor
    · intro hle
      exact (eq_of_significand_eq_zero h hsign (hzero.mp (by linarith))).le
    · intro hle
      obtain rfl : bits = 2 ^ 63 := by omega
      rw [hzero.mpr (by norm_num [significand, exponent, fraction]), neg_zero]
  · exact iff_of_true (magnitude_nonneg bits) (by omega)

theorem value_eq_magnitude {bits : ℕ} (h : bits ≤ 2 ^ 63) : value bits = magnitude bits := by
  obtain hlt | rfl := h.lt_or_eq
  · exact value_of_lt hlt
  · have hzero : magnitude (2 ^ 63) = 0 := (magnitude_eq_zero_iff _).mpr (by decide)
    rw [value, if_pos le_rfl, hzero, neg_zero]

theorem ulp_of_le {bits : ℕ} (h : 1075 ≤ exponent bits) :
    ulp bits = ((2 ^ (exponent bits - 1075) : ℕ) : ℚ) := by
  have hscale : scale bits = ((exponent bits - 1075 : ℕ) : ℤ) := by
    unfold scale
    omega
  rw [ulp, hscale, zpow_natCast, Nat.cast_pow, Nat.cast_ofNat]

theorem ulp_of_lt {bits : ℕ} (hpos : exponent bits ≠ 0) (h : exponent bits < 1075) :
    ulp bits = ((2 ^ (1075 - exponent bits) : ℕ) : ℚ)⁻¹ := by
  have hscale : scale bits = -((1075 - exponent bits : ℕ) : ℤ) := by
    unfold scale
    omega
  rw [ulp, hscale, zpow_neg, zpow_natCast, Nat.cast_pow, Nat.cast_ofNat]

def truncate (bits : ℕ) : ℕ :=
  if 1075 ≤ exponent bits then significand bits * 2 ^ (exponent bits - 1075)
  else significand bits / 2 ^ (1075 - exponent bits)

theorem significand_lt (bits : ℕ) : significand bits < 2 ^ 53 := by
  unfold significand fraction
  split_ifs <;> omega

theorem floor_magnitude (bits : ℕ) : ⌊magnitude bits⌋₊ = truncate bits := by
  unfold truncate magnitude
  split_ifs with hlarge
  · rw [ulp_of_le hlarge, ← Nat.cast_mul, Nat.floor_natCast]
  · by_cases hzero : exponent bits = 0
    · -- a subnormal number is less than one
      have hfraction : significand bits < 2 ^ 52 := by
        rw [significand, if_pos hzero, fraction]
        omega
      have hlt : (significand bits : ℚ) < 2 ^ 52 := by exact_mod_cast hfraction
      have hulp : ulp bits ≤ 2 ^ (-52 : ℤ) := ulp_le (by unfold scale; omega)
      have hpow : 2 ^ 52 ≤ 2 ^ (1075 - exponent bits) :=
        Nat.pow_le_pow_right (by decide) (by omega)
      rw [Nat.div_eq_of_lt (hfraction.trans_le hpow), Nat.floor_eq_zero]
      calc (significand bits : ℚ) * ulp bits
          < 2 ^ 52 * 2 ^ (-52 : ℤ) := mul_lt_mul hlt hulp (ulp_pos bits) (by positivity)
        _ = 1 := by norm_num
    · rw [ulp_of_lt hzero (by omega), ← div_eq_mul_inv, Nat.floor_div_eq_div]

/-- Below the sign, a word is larger than that of `2 ^ 64` exactly where its number is. -/
theorem magnitude_le_iff {bits : ℕ} (h : bits < 2 ^ 63) :
    magnitude bits ≤ 2 ^ 64 ↔ bits ≤ 0x43F0000000000000 := by
  have hexponent : exponent bits = bits / 2 ^ 52 := by
    unfold exponent
    omega
  obtain hsmall | hlarge := Nat.lt_or_ge (exponent bits) 1087
  · -- a smaller exponent
    have hulp : ulp bits ≤ 2 ^ (11 : ℤ) := ulp_le (by unfold scale; omega)
    have hlt : (significand bits : ℚ) ≤ 2 ^ 53 := by exact_mod_cast (significand_lt bits).le
    refine iff_of_true ?_ (by omega)
    calc magnitude bits
        ≤ 2 ^ 53 * 2 ^ (11 : ℤ) := mul_le_mul hlt hulp (ulp_pos bits).le (by positivity)
      _ = 2 ^ 64 := by norm_num
  · have hmagnitude : magnitude bits =
        ((significand bits * 2 ^ (exponent bits - 1075) : ℕ) : ℚ) := by
      rw [magnitude, ulp_of_le (by omega), Nat.cast_mul]
    have hpow : ((2 ^ 64 : ℕ) : ℚ) = 2 ^ 64 := by norm_num
    rw [hmagnitude, ← hpow, Nat.cast_le]
    have hsignificand : significand bits = bits % 2 ^ 52 + 2 ^ 52 := by
      rw [significand, if_neg (by omega), fraction]
    obtain heq | hlt := hlarge.eq_or_lt
    · rw [← heq, hsignificand]
      norm_num
      omega
    · have hscale : 2 ^ 13 ≤ 2 ^ (exponent bits - 1075) :=
        Nat.pow_le_pow_right (by decide) (by omega)
      have hle : 2 ^ 52 * 2 ^ 13 ≤ significand bits * 2 ^ (exponent bits - 1075) :=
        Nat.mul_le_mul (by omega) hscale
      exact iff_of_false (by omega) (by omega)

end EdgeScope.Binary64
