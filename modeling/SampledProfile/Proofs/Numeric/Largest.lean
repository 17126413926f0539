/-
# Ratios that have a double

A ratio of natural numbers has a nearest double if it is at most the largest double
(`Binary64.isSome_ofRatio?`).  The exponent of the nearest double is such that the mantissa has room
(`Binary64.below_scale`), and up to the largest double it stays within its bounds
(`Binary64.scale_le`).  The mantissa may be rounded up to `2 ^ 53`, which is the next exponent; only at
the greatest exponent there is none, and there the mantissa is not rounded up that far.
-/
import Mathlib.Algebra.Order.Field.Power
import Mathlib.Algebra.Order.Ring.Rat
import Mathlib.Data.Rat.Cast.Order
import Mathlib.Tactic.Positivity
import SampledProfile.Numeric.Binary64

namespace SampledProfile
namespace Binary64

/-- The greatest exponent of a double. -/
def topExponent : Nat := 971

/-- The largest double. -/
def largest : Nat := (2 ^ 53 - 1) * 2 ^ topExponent

/-! ## 1. Ratios below powers of two -/

/-- A ratio lies below a power of two, as it is compared in natural numbers. -/
def Below (num den : Nat) (exponent : Int) : Prop :=
  num * 2 ^ (-exponent).toNat < den * 2 ^ exponent.toNat

instance (num den : Nat) (exponent : Int) : Decidable (Below num den exponent) :=
  inferInstanceAs (Decidable (_ < _))

theorem zpow_mul_pow (exponent : Int) :
    (2 : Rat) ^ exponent * 2 ^ (-exponent).toNat = 2 ^ exponent.toNat := by
  rw [← zpow_natCast, ← zpow_natCast, ← zpow_add₀ two_ne_zero]
  congr 1
  omega

theorem below_iff {num den : Nat} {exponent : Int} :
    Below num den exponent ↔ (num : Rat) < den * 2 ^ exponent := by
  have hpow : (0 : Rat) < 2 ^ (-exponent).toNat := by positivity
  rw [Below, ← mul_lt_mul_iff_left₀ hpow, mul_assoc, zpow_mul_pow]
  exact_mod_cast Iff.rfl

theorem Below.mono {num den : Nat} {exponent other : Int} (h : Below num den exponent)
    (hle : exponent ≤ other) : Below num den other := by
  rw [below_iff] at h ⊢
  exact h.trans_le (mul_le_mul_of_nonneg_left (zpow_le_zpow_right₀ one_le_two hle) den.cast_nonneg)

/-- The mantissa of a ratio below a power of two has room. -/
theorem Below.mantissa_le {num den : Nat} {exponent : Int} (h : Below num den (53 + exponent)) :
    num * 2 ^ (-exponent).toNat ≤ 2 ^ 53 * (den * 2 ^ exponent.toNat) := by
  have hpow : (0 : Rat) < 2 ^ (-exponent).toNat := by positivity
  rw [below_iff, zpow_add₀ two_ne_zero, ← mul_lt_mul_iff_left₀ hpow, mul_assoc, mul_assoc,
    zpow_mul_pow, mul_left_comm] at h
  exact_mod_cast h.le

/-- A ratio lies below the power of two that the numbers of digits give. -/
theorem below_log2 (num : Nat) {den : Nat} (hden : den ≠ 0) :
    Below num den ((num.log2 : Int) - den.log2 + 1) := by
  have hnum : (num : Rat) < 2 ^ ((num.log2 + 1 : Nat) : Int) := by
    rw [zpow_natCast]
    exact_mod_cast Nat.lt_log2_self
  have hlow : (2 : Rat) ^ ((den.log2 : Nat) : Int) ≤ den := by
    rw [zpow_natCast]
    exact_mod_cast Nat.log2_self_le hden
  rw [below_iff]
  calc (num : Rat) < 2 ^ ((num.log2 + 1 : Nat) : Int) := hnum
    _ = 2 ^ ((den.log2 : Nat) : Int) * 2 ^ ((num.log2 : Int) - den.log2 + 1) := by
      rw [← zpow_add₀ two_ne_zero]
      congr 1
      omega
    _ ≤ den * 2 ^ ((num.log2 : Int) - den.log2 + 1) :=
      mul_le_mul_of_nonneg_right hlow (by positivity)

/-- A ratio that lies below a power of two has no more digits than that. -/
theorem log2_sub_log2_le {num den exponent : Nat} (hnum : num ≠ 0)
    (h : num < den * 2 ^ exponent) :
    (num.log2 : Int) - den.log2 ≤ exponent := by
  have hlow : 2 ^ num.log2 ≤ num := Nat.log2_self_le hnum
  have hden : den < 2 ^ (den.log2 + 1) := Nat.lt_log2_self
  have hlt : 2 ^ num.log2 < 2 ^ (den.log2 + 1 + exponent) := by
    calc 2 ^ num.log2 ≤ num := hlow
      _ < den * 2 ^ exponent := h
      _ ≤ 2 ^ (den.log2 + 1) * 2 ^ exponent := Nat.mul_le_mul_right _ hden.le
      _ = 2 ^ (den.log2 + 1 + exponent) := (pow_add ..).symm
  have hlog := (Nat.pow_lt_pow_iff_right (by decide)).mp hlt
  omega

/-! ## 2. The exponent -/

variable {num den : Nat}

theorem scale_eq (num den : Nat) :
    scale num den = max ((num.log2 : Int) - den.log2 +
      (if Below num den ((num.log2 : Int) - den.log2) then 0 else 1) - 53) (-1074) := by
  have hguess : 53 + ((num.log2 : Int) - den.log2 - 53) = (num.log2 : Int) - den.log2 := by omega
  have hfits : decide (num * Nat.pow 2 (-((num.log2 : Int) - den.log2)).toNat <
      den * Nat.pow 2 ((num.log2 : Int) - den.log2).toNat) =
        decide (Below num den ((num.log2 : Int) - den.log2)) := rfl
  unfold scale
  simp only [Int.ofNat_eq_natCast, hguess]
  rw [hfits]
  by_cases h : Below num den ((num.log2 : Int) - den.log2)
  · rw [if_pos h, if_pos (decide_eq_true h), add_zero]
  · rw [if_neg h, if_neg (by rwa [decide_eq_true_iff]), add_sub_right_comm]

/-- The mantissa has room. -/
theorem below_scale (num : Nat) (hden : den ≠ 0) : Below num den (53 + scale num den) := by
  rw [scale_eq]
  split
  · rename_i h
    exact h.mono (by omega)
  · exact (below_log2 num hden).mono (by omega)

theorem neg_le_scale (num den : Nat) : -1074 ≤ scale num den := by
  rw [scale_eq]
  exact le_max_right _ _

/-- The exponent is not greater than the ratio asks for. -/
theorem scale_le {exponent : Nat} (hnum : num ≠ 0) (h : num < den * 2 ^ (53 + exponent)) :
    scale num den ≤ exponent := by
  have hdigits := log2_sub_log2_le hnum h
  rw [scale_eq]
  refine max_le ?_ (by omega)
  split
  · omega
  · rename_i hnot
    -- with as many digits the ratio would lie below
    have hne : (num.log2 : Int) - den.log2 ≠ ((53 + exponent : Nat) : Int) := by
      intro heq
      have hnone : (-((53 + exponent : Nat) : Int)).toNat = 0 := by omega
      rw [heq, Below, hnone, Int.toNat_natCast, pow_zero, mul_one] at hnot
      exact hnot h
    omega

/-! ## 3. The mantissa -/

/-- Rounding does not go beyond a natural number. -/
theorem roundDiv_le {most : Nat} (hden : 0 < den) (h : num ≤ most * den) :
    roundDiv num den ≤ most := by
  have hsplit := Nat.div_add_mod num den
  have hrest := Nat.mod_lt num hden
  have hquotient : num / den ≤ most := Nat.div_le_of_le_mul (by rwa [mul_comm])
  unfold roundDiv
  dsimp only
  rcases hquotient.lt_or_eq with hlt | heq
  · split
    · omega
    · split
      · omega
      · omega
  · -- the ratio is that number
    have hzero : num % den = 0 := by
      rw [heq, mul_comm] at hsplit
      omega
    rw [hzero, heq, if_pos (by omega)]

/-- **Up to the largest double a ratio has a nearest double.** -/
theorem isSome_ofRatio? (negative : Bool) (hden : den ≠ 0) (h : num ≤ largest * den) :
    (ofRatio? negative num den).isSome = true := by
  unfold ofRatio?
  simp only [Nat.pow_eq]
  by_cases hnum : num = 0
  · rw [if_pos hnum]
    rfl
  rw [if_neg hnum]
  have hleast := neg_le_scale num den
  have hlargest : largest < 2 ^ (53 + topExponent) := by
    rw [pow_add]
    exact Nat.mul_lt_mul_of_pos_right (by decide) (Nat.pow_pos (by decide))
  have hmost : scale num den ≤ topExponent := by
    refine scale_le hnum (h.trans_lt ?_)
    rw [mul_comm]
    exact Nat.mul_lt_mul_of_pos_left hlargest (Nat.pos_of_ne_zero hden)
  have hpos : 0 < den * 2 ^ (scale num den).toNat :=
    Nat.mul_pos (Nat.pos_of_ne_zero hden) (Nat.pow_pos (by decide))
  have htop : (topExponent : Int) = 971 := rfl
  rw [if_neg]
  · rfl
  rw [Nat.not_le]
  rcases hmost.lt_or_eq with hlt | heq
  · have hmantissa : roundDiv (num * 2 ^ (-scale num den).toNat)
        (den * 2 ^ (scale num den).toNat) ≤ 2 ^ 53 :=
      roundDiv_le hpos (below_scale num hden).mantissa_le
    omega
  · have hmantissa : roundDiv (num * 2 ^ (-scale num den).toNat)
        (den * 2 ^ (scale num den).toNat) ≤ 2 ^ 53 - 1 := by
      refine roundDiv_le hpos ?_
      have hnone : (-(topExponent : Int)).toNat = 0 := rfl
      rw [heq, hnone, Int.toNat_natCast, pow_zero, mul_one]
      calc num ≤ largest * den := h
        _ = (2 ^ 53 - 1) * (den * 2 ^ topExponent) := by rw [largest, mul_assoc, mul_comm den]
    omega

end Binary64
end SampledProfile
