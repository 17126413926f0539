/-
# Numbers that are not too large

Only integers can be too large to be taken as doubles.  The SIZE of a number (`Number.size`) is that of
the integer, and nothing for a double; so sizes add up at most, and what is taken as a double has none.
Numbers whose sizes are within the largest double can be added, multiplied and divided
(`Number.ends_add`, `Number.ends_div`).

How large numbers may get is said by a bound, the MASS.  An operation REFUSES within a mass
(`Fault.Refuses`) if it fails because the data is no profile, or because of a number that is too large,
and then the mass is beyond the largest double.
-/
import SampledProfile.Numeric.Number
import SampledProfile.Proofs.Numeric.Largest
import SampledProfile.Proofs.Outcome

namespace SampledProfile

open Outcome

/-- The data is no acceptable profile, or a number is too large, which is not so within the largest
double. -/
def Fault.Refuses (mass : Nat) : Fault → Prop
  | .malformed _ => True
  | .overflow => Binary64.largest < mass
  | _ => False

namespace Number

/-- The size of an integer; doubles have none. -/
def size : Number → Nat
  | .int n => n.natAbs
  | _ => 0

/-! ## 1. Sizes of results -/

@[simp] theorem size_ofInt (n : Int) : (Scalar.ofInt n : Number).size = n.natAbs := rfl

theorem size_combine_le {ints : Int → Int → Int} {reals : Float → Float → Float} {x y : Number}
    {bound : Nat} (h : ∀ a b, x = .int a → y = .int b → (ints a b).natAbs ≤ bound) :
    (combine ints reals x y).size ≤ bound := by
  cases x with
  | int a =>
    cases y with
    | int b => exact h a b rfl rfl
    | _ => exact Nat.zero_le _
  | _ => exact Nat.zero_le _

theorem size_add_le (x y : Number) : (x + y).size ≤ x.size + y.size := by
  refine size_combine_le fun a b hx hy => ?_
  subst hx hy
  exact Int.natAbs_add_le a b

theorem size_sub_le (x y : Number) : (x - y).size ≤ x.size + y.size := by
  refine size_combine_le fun a b hx hy => ?_
  subst hx hy
  exact Int.natAbs_sub_le a b

theorem size_mul_le (x y : Number) : (x * y).size ≤ x.size * y.size := by
  refine size_combine_le fun a b hx hy => ?_
  subst hx hy
  exact (Int.natAbs_mul a b).le

/-- A quotient is a double. -/
theorem size_div (x y : Number) : (x / y).size = 0 := by
  cases x with
  | int a =>
    cases y with
    | int b => rfl
    | _ => rfl
  | _ => rfl

/-! ## 2. Operations that may fail -/

variable {mass : Nat} {x y : Number}

theorem hasReal_of_size_le (h : x.size ≤ Binary64.largest) : x.hasReal = true := by
  cases x with
  | int n => exact Binary64.isSome_ofRatio? _ one_ne_zero (by rwa [mul_one])
  | _ => rfl

theorem combineFault_eq_none (hx : x.size ≤ Binary64.largest) (hy : y.size ≤ Binary64.largest) :
    combineFault x y = none := by
  have hreals : (if x.hasReal && y.hasReal then none else some Fault.overflow) = none := by
    rw [hasReal_of_size_le hx, hasReal_of_size_le hy]
    rfl
  unfold combineFault
  split
  · rfl
  · exact hreals

theorem eq_overflow_of_combineFault {fault : Fault} (h : combineFault x y = some fault) :
    fault = .overflow := by
  unfold combineFault at h
  split at h
  · cases h
  · split at h
    · cases h
    · exact (Option.some.inj h).symm

theorem quotientFault_eq_none (hx : x.size ≤ Binary64.largest) (hy : y.size ≤ Binary64.largest)
    (hne : y.exact ≠ .finite 0) : quotientFault x y = none := by
  have hreals : (if !(x.hasReal && y.hasReal) then some Fault.overflow
      else if y.exact = .finite 0 then some .zeroDivision else none) = none := by
    rw [hasReal_of_size_le hx, hasReal_of_size_le hy, if_neg hne]
    rfl
  unfold quotientFault
  split
  · rename_i a b
    have hb : b ≠ 0 := by
      rintro rfl
      exact hne rfl
    have hpos : 1 ≤ b.natAbs := Int.natAbs_pos.mpr hb
    have hquotient : (intQuotient? a b).isSome = true :=
      Binary64.isSome_ofRatio? _ (by omega) (hx.trans (Nat.le_mul_of_pos_right _ hpos))
    rw [if_neg hb, if_pos hquotient]
  · exact hreals

theorem eq_overflow_of_quotientFault (hne : y.exact ≠ .finite 0) {fault : Fault}
    (h : quotientFault x y = some fault) : fault = .overflow := by
  unfold quotientFault at h
  split at h
  · split at h
    · rename_i hzero
      rw [hzero] at hne
      exact absurd rfl hne
    · split at h
      · cases h
      · exact (Option.some.inj h).symm
  · split at h
    · exact (Option.some.inj h).symm
    · cases h

theorem ends_guarded {cause : Option Fault} {result : Number}
    (hnone : mass ≤ Binary64.largest → cause = none)
    (hoverflow : ∀ fault, cause = some fault → fault = .overflow) :
    Ends (Fault.Refuses mass) (· = result) (Scalar.guarded cause result) := by
  cases cause with
  | none => exact rfl
  | some fault =>
    obtain rfl := hoverflow fault rfl
    have hlarge : Binary64.largest < mass := by
      by_contra hsmall
      cases hnone (Nat.le_of_not_lt hsmall)
    exact hlarge

section Combined

variable (hx : x.size ≤ mass) (hy : y.size ≤ mass)

include hx hy

/-- **Numbers within the mass combine, unless the mass is too large.** -/
theorem ends_combine (result : Number) :
    Ends (Fault.Refuses mass) (· = result) (Scalar.guarded (Scalar.combineFault x y) result) :=
  ends_guarded (fun h => combineFault_eq_none (hx.trans h) (hy.trans h)) fun _ =>
    eq_overflow_of_combineFault

theorem ends_add : Ends (Fault.Refuses mass) (· = x + y) (Scalar.add? x y) := ends_combine hx hy _

theorem ends_sub : Ends (Fault.Refuses mass) (· = x - y) (Scalar.sub? x y) := ends_combine hx hy _

theorem ends_mul : Ends (Fault.Refuses mass) (· = x * y) (Scalar.mul? x y) := ends_combine hx hy _

theorem ends_div (hne : Scalar.isZero y = false) :
    Ends (Fault.Refuses mass) (· = x / y) (Scalar.div? x y) := by
  have hexact : y.exact ≠ .finite 0 := of_decide_eq_false hne
  exact ends_guarded (fun h => quotientFault_eq_none (hx.trans h) (hy.trans h) hexact) fun _ =>
    eq_overflow_of_quotientFault hexact

end Combined

theorem isZero_ofInt {n : Int} (h : n ≠ 0) : Scalar.isZero (Scalar.ofInt n : Number) = false :=
  decide_eq_false fun hzero => h (by simpa [Scalar.exact, exact] using Magnitude.finite.inj hzero)

/-- **A difference that is within the mass can be shared out, and every share is a double.** -/
theorem ends_share {parts : Number} (hspan : x.size + y.size ≤ mass) (hparts : parts.size ≤ mass)
    (hne : Scalar.isZero parts = false) :
    Ends (Fault.Refuses mass) (fun share => share.size = 0)
      (Scalar.sub? x y >>= fun span => Scalar.div? span parts) := by
  have hsub : Ends (Fault.Refuses mass) (· = x - y) (Scalar.sub? x y) :=
    ends_sub (by omega) (by omega)
  refine hsub.bind fun span hspan => ?_
  subst hspan
  have hsize := size_sub_le x y
  refine (ends_div (by omega) hparts hne).mono ?_
  rintro _ rfl
  exact size_div _ _

end Number
end SampledProfile
