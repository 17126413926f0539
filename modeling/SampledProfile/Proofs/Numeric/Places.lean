/-
# Numbers with fixed places

A number with so many places after the point is the natural number nearest to it on the grid of
these places (`Binary64.roundDiv`), laid out as two runs of digits with a point between them.

* Rounding is off by at most a half (`Binary64.roundDiv_le_add_half`,
  `Binary64.le_roundDiv_add_half`), and it goes up to an even number from a half below it on
  (`Binary64.roundDiv_lt_iff_of_even`);
* `Decimal.read?` reads such a text.  What it reads off a number laid out with places is the rounded
  number (`Decimal.read?_fixedRatio`), so that of `Exact.fixed` is off by at most half a place
  (`Exact.read?_fixed`).
-/
import Mathlib.Algebra.Order.Field.Basic
import Mathlib.Algebra.Order.Ring.Rat
import Mathlib.Data.Rat.Cast.Order
import Mathlib.Tactic.FieldSimp
import Mathlib.Tactic.Linarith
import Mathlib.Tactic.Positivity
import Mathlib.Tactic.Ring
import SampledProfile.Numeric.Exact
import SampledProfile.Proofs.Numeric.Largest
import SampledProfile.Text.Numeral

namespace SampledProfile

/-! ## 1. Rounding to the nearest -/

namespace Binary64

variable {den : Nat}

/-- The quotient and what is left of it, in place of the ratio. -/
theorem roundDiv_cases (num den : Nat) (hden : 0 < den) :
    ∃ quotient rest, num = den * quotient + rest ∧ rest < den ∧
      roundDiv num den =
        if 2 * rest < den then quotient
        else if 2 * rest = den then quotient + quotient % 2
        else quotient + 1 :=
  ⟨num / den, num % den, (Nat.div_add_mod num den).symm, Nat.mod_lt num hden, rfl⟩

/-- Rounding goes up by at most a half. -/
theorem roundDiv_le_add_half (num : Nat) (hden : 0 < den) :
    2 * (den * roundDiv num den) ≤ 2 * num + den := by
  obtain ⟨quotient, rest, rfl, hrest, hround⟩ := roundDiv_cases num den hden
  have hnext : den * (quotient + 1) = den * quotient + den := Nat.mul_succ den quotient
  have heven : den * (quotient + quotient % 2) ≤ den * (quotient + 1) :=
    Nat.mul_le_mul_left den (by omega)
  rw [hround]
  split
  · omega
  · split
    · omega
    · omega

/-- Rounding goes down by at most a half. -/
theorem le_roundDiv_add_half (num : Nat) (hden : 0 < den) :
    2 * num ≤ 2 * (den * roundDiv num den) + den := by
  obtain ⟨quotient, rest, rfl, hrest, hround⟩ := roundDiv_cases num den hden
  have hnext : den * (quotient + 1) = den * quotient + den := Nat.mul_succ den quotient
  have heven : den * quotient ≤ den * (quotient + quotient % 2) :=
    Nat.mul_le_mul_left den (Nat.le_add_right quotient _)
  rw [hround]
  split
  · omega
  · split
    · omega
    · omega

/-- What is a half below an even number, or less than that, is rounded up to it. -/
theorem roundDiv_lt_iff_of_even (num : Nat) (hden : 0 < den) {bound : Nat} (heven : bound % 2 = 0) :
    roundDiv num den < bound ↔ 2 * num + den < 2 * (den * bound) := by
  obtain ⟨quotient, rest, rfl, hrest, hround⟩ := roundDiv_cases num den hden
  rw [hround]
  rcases Nat.lt_trichotomy (quotient + 1) bound with hbelow | rfl | habove
  · -- two steps below the bound rounding does not reach it
    have hsteps : den * (quotient + 2) ≤ den * bound := Nat.mul_le_mul_left den hbelow
    rw [Nat.mul_add] at hsteps
    split
    · omega
    · split
      · omega
      · omega
  · -- one step below it the quotient is odd, so that a half goes up
    have hnext : den * (quotient + 1) = den * quotient + den := Nat.mul_succ den quotient
    split
    · omega
    · split
      · omega
      · omega
  · have hreached : den * bound ≤ den * quotient :=
      Nat.mul_le_mul_left den (Nat.le_of_lt_succ habove)
    split
    · omega
    · split
      · omega
      · omega

end Binary64

/-! ## 2. Digits -/

namespace Text

/-- The digits of a natural number are read back as it. -/
theorem digitsValue_toString (n : Nat) : digitsValue (toString n).toList = n := by
  rw [Nat.toString_eq_ofList_toDigits, String.toList_ofList, digitsValue,
    ← Nat.ofDigitChars_eq_foldl]
  exact Nat.ofDigitChars_ten_toDigits

theorem isDigit_toString (n : Nat) : ∀ c ∈ (toString n).toList, c.isDigit = true := by
  intro c hc
  rw [Nat.toString_eq_ofList_toDigits, String.toList_ofList] at hc
  exact Nat.isDigit_of_mem_toDigits (by decide) (by decide) hc

/-- Zeros in front change nothing. -/
theorem digitsValue_zeros (count : Nat) (cs : List Char) :
    digitsValue (List.replicate count '0' ++ cs) = digitsValue cs := by
  simp only [digitsValue, ← Nat.ofDigitChars_eq_foldl, Nat.ofDigitChars_append,
    Nat.ofDigitChars_replicate_zero, Nat.mul_zero]

/-- A run of digits ends where something else begins. -/
theorem digitsOf_append {digits rest : List Char} (hdigits : ∀ c ∈ digits, c.isDigit = true)
    (hrest : ∀ c ∈ rest.head?, c.isDigit = false) : digitsOf (digits ++ rest) = digits := by
  rw [digitsOf, List.takeWhile_append_of_pos hdigits]
  cases rest with
  | nil => simp
  | cons c rest => simp [hrest c rfl]

end Text

/-! ## 3. Places -/

namespace Decimal

open Text

/-- Digits filled up with zeros. -/
structure IsPadded (places n : Nat) (text : String) : Prop where
  length : text.toList.length = places
  digits : ∀ c ∈ text.toList, c.isDigit = true
  value : digitsValue text.toList = n

theorem isPadded_padded {places n : Nat} (hplaces : 0 < places) (h : n < 10 ^ places) :
    IsPadded places n (padded places n) := by
  have hlist : (padded places n).toList =
      List.replicate (places - (toString n).length) '0' ++ (toString n).toList := by
    simp [padded, zeros]
  have hlength : (toString n).toList.length ≤ places := by
    rw [Nat.toString_eq_ofList_toDigits, String.toList_ofList]
    exact (Nat.length_toDigits_le_iff (by decide) hplaces).mpr h
  constructor
  · rw [hlist, List.length_append, List.length_replicate, ← String.length_toList]
    omega
  · intro c hc
    rw [hlist, List.mem_append] at hc
    rcases hc with hzero | hdigit
    · rw [List.eq_of_mem_replicate hzero]
      rfl
    · exact isDigit_toString n c hdigit
  · rw [hlist, digitsValue_zeros, digitsValue_toString]

/-- The number with so many places at the start of a text, and what follows it. -/
def read? (places : Nat) (cs : List Char) : Option (Rat × List Char) :=
  let whole := digitsOf cs
  match cs.drop whole.length with
  | '.' :: rest =>
    let fraction := digitsOf rest
    if whole.isEmpty || fraction.length != places then none
    else
      some ((digitsValue whole : Rat) + digitsValue fraction / 10 ^ places, rest.drop places)
  | _ => none

/-- Behind the first digits of a number with places there is a point. -/
theorem exists_point_of_read? {places : Nat} {cs : List Char} {result : Rat × List Char}
    (h : read? places cs = some result) : ∃ rest, cs.drop (digitsOf cs).length = '.' :: rest := by
  unfold read? at h
  dsimp only at h
  split at h
  · exact ⟨_, ‹_›⟩
  · cases h

/-- **A number laid out with places is read as what it was rounded to.** -/
theorem read?_fixedRatio {places : Nat} (hplaces : 0 < places) (num den : Nat) {rest : List Char}
    (hrest : ∀ c ∈ rest.head?, c.isDigit = false) :
    read? places ((fixedRatio places false num den).toList ++ rest) =
      some ((Binary64.roundDiv (num * 10 ^ places) den : Rat) / 10 ^ places, rest) := by
  have hpow : 0 < 10 ^ places := Nat.pow_pos (by decide)
  have hlayout : (fixedRatio places false num den).toList =
      (toString (Binary64.roundDiv (num * 10 ^ places) den / 10 ^ places)).toList ++ '.' ::
        (padded places (Binary64.roundDiv (num * 10 ^ places) den % 10 ^ places)).toList := by
    simp [fixedRatio, signed, Nat.pos_iff_ne_zero.mp hplaces]
  generalize Binary64.roundDiv (num * 10 ^ places) den = scaled at hlayout ⊢
  have hfraction := isPadded_padded hplaces (Nat.mod_lt scaled hpow)
  generalize padded places (scaled % 10 ^ places) = fraction at hlayout hfraction
  have hwhole : digitsOf ((toString (scaled / 10 ^ places)).toList ++
      '.' :: (fraction.toList ++ rest)) = (toString (scaled / 10 ^ places)).toList :=
    digitsOf_append (isDigit_toString _) (by simp)
  have hplacesRead : digitsOf (fraction.toList ++ rest) = fraction.toList :=
    digitsOf_append hfraction.digits hrest
  have hsplit : ((scaled / 10 ^ places : Nat) : Rat) +
      ((scaled % 10 ^ places : Nat) : Rat) / 10 ^ places = (scaled : Rat) / 10 ^ places := by
    have hdivmod : (scaled : Rat) = 10 ^ places * (scaled / 10 ^ places : Nat) +
        (scaled % 10 ^ places : Nat) := by
      exact_mod_cast (Nat.div_add_mod scaled (10 ^ places)).symm
    rw [hdivmod]
    field_simp
  rw [hlayout, List.append_assoc, List.cons_append, read?, hwhole]
  simp only [List.drop_left, hplacesRead, hfraction.length, hfraction.value, digitsValue_toString,
    hsplit]
  rw [if_neg (by simp), ← hfraction.length, List.drop_left]

end Decimal

/-! ## 4. Rationals -/

namespace Exact

/-- The number with so many places that is nearest to a number that is not negative. -/
def nearest (places : Nat) (x : Rat) : Rat :=
  (Binary64.roundDiv (x.num.natAbs * 10 ^ places) x.den : Rat) / 10 ^ places

variable {x : Rat}

theorem nearest_nonneg (places : Nat) (x : Rat) : 0 ≤ nearest places x := by
  unfold nearest
  positivity

/-- The scaled number over its denominator. -/
theorem scaled_eq (places : Nat) (hx : 0 ≤ x) :
    ((x.num.natAbs * 10 ^ places : Nat) : Rat) = x * 10 ^ places * x.den := by
  have hnum : ((x.num.natAbs : Nat) : Rat) = x * x.den := by
    rw [← Int.cast_natCast, Int.natAbs_of_nonneg (Rat.num_nonneg.mpr hx), Rat.mul_den_eq_num]
  push_cast
  rw [hnum]
  ring

/-- Rounding does not go beyond a whole number. -/
theorem nearest_le (places : Nat) (hx : 0 ≤ x) {bound : Nat} (h : x ≤ bound) :
    nearest places x ≤ bound := by
  have hpow : (0 : Rat) < 10 ^ places := by positivity
  have hround : Binary64.roundDiv (x.num.natAbs * 10 ^ places) x.den ≤ bound * 10 ^ places := by
    refine Binary64.roundDiv_le x.den_pos ?_
    have hscaled : ((x.num.natAbs * 10 ^ places : Nat) : Rat) ≤ bound * 10 ^ places * x.den := by
      rw [scaled_eq places hx]
      gcongr
    exact_mod_cast hscaled
  rw [nearest, div_le_iff₀ hpow]
  exact_mod_cast hround

theorem read?_fixed {places : Nat} (hplaces : 0 < places) (hx : 0 ≤ x) {rest : List Char}
    (hrest : ∀ c ∈ rest.head?, c.isDigit = false) :
    Decimal.read? places ((fixed places x).toList ++ rest) = some (nearest places x, rest) := by
  rw [fixed, decide_eq_false (not_lt.mpr hx)]
  exact Decimal.read?_fixedRatio hplaces _ _ hrest

/-- **Rounding to places is off by at most half a place.** -/
theorem abs_nearest_sub_le (places : Nat) (hx : 0 ≤ x) :
    |nearest places x - x| ≤ 1 / (2 * 10 ^ places) := by
  have hden : (0 : Rat) < x.den := by exact_mod_cast x.den_pos
  have hpow : (0 : Rat) < 10 ^ places := by positivity
  have hup := Binary64.roundDiv_le_add_half (x.num.natAbs * 10 ^ places) x.den_pos
  have hdown := Binary64.le_roundDiv_add_half (x.num.natAbs * 10 ^ places) x.den_pos
  have hscaled := scaled_eq places hx
  unfold nearest
  generalize x.num.natAbs * 10 ^ places = num at hup hdown hscaled ⊢
  generalize Binary64.roundDiv num x.den = rounded at hup hdown ⊢
  have hup' : 2 * ((x.den : Rat) * rounded) ≤ 2 * num + x.den := by exact_mod_cast hup
  have hdown' : 2 * (num : Rat) ≤ 2 * (x.den * rounded) + x.den := by exact_mod_cast hdown
  rw [hscaled] at hup' hdown'
  have hhigh : 2 * (rounded : Rat) ≤ 2 * (x * 10 ^ places) + 1 := by
    refine le_of_mul_le_mul_left ?_ hden
    linarith
  have hlow : 2 * (x * 10 ^ places) ≤ 2 * (rounded : Rat) + 1 := by
    refine le_of_mul_le_mul_left ?_ hden
    linarith
  rw [abs_le, div_sub' hpow.ne', le_div_iff₀ hpow, div_le_iff₀ hpow]
  constructor
  · field_simp
    linarith
  · field_simp
    linarith

/-- What is half a place below a whole number, or less than that, is rounded up to it. -/
theorem nearest_lt_iff {places : Nat} (hplaces : 0 < places) (hx : 0 ≤ x) (bound : Nat) :
    nearest places x < bound ↔ x < bound - 1 / (2 * 10 ^ places) := by
  have hden : (0 : Rat) < x.den := by exact_mod_cast x.den_pos
  have hpow : (0 : Rat) < 10 ^ places := by positivity
  have heven : bound * 10 ^ places % 2 = 0 := by
    obtain ⟨more, rfl⟩ : ∃ more, places = more + 1 := Nat.exists_eq_succ_of_ne_zero hplaces.ne'
    rw [pow_succ, show bound * (10 ^ more * 10) = 2 * (bound * 10 ^ more * 5) by ring,
      Nat.mul_mod_right]
  have hscaled := scaled_eq places hx
  have hround := Binary64.roundDiv_lt_iff_of_even (x.num.natAbs * 10 ^ places) x.den_pos heven
  unfold nearest
  generalize x.num.natAbs * 10 ^ places = num at hround hscaled ⊢
  rw [div_lt_iff₀ hpow]
  have hcast : (Binary64.roundDiv num x.den : Rat) < bound * 10 ^ places ↔
      2 * (num : Rat) + x.den < 2 * (x.den * (bound * 10 ^ places)) := by
    exact_mod_cast hround
  have hunit : x < bound - 1 / (2 * 10 ^ places) ↔
      2 * (x * 10 ^ places) + 1 < 2 * (bound * 10 ^ places) := by
    rw [lt_sub_iff_add_lt, ← mul_lt_mul_iff_left₀ (show (0 : Rat) < 2 * 10 ^ places by positivity)]
    have hsum : (x + 1 / (2 * 10 ^ places)) * (2 * 10 ^ places) = 2 * (x * 10 ^ places) + 1 := by
      field_simp
    have hbound : (bound : Rat) * (2 * 10 ^ places) = 2 * (bound * 10 ^ places) := by ring
    rw [hsum, hbound]
  have hleft : 2 * (x * 10 ^ places * x.den) + x.den = x.den * (2 * (x * 10 ^ places) + 1) := by
    ring
  have hright : 2 * ((x.den : Rat) * (bound * 10 ^ places)) =
      x.den * (2 * (bound * 10 ^ places)) := by
    ring
  rw [hcast, hscaled, hunit, hleft, hright, mul_lt_mul_iff_right₀ hden]

end Exact
end SampledProfile
