/-
# Times as exact rationals

The rationals as a `Scalar`: no rounding, no infinities, and every sum has a value.  What holds
of a profile only up to rounding holds exactly when its numbers are read this way.
-/
import SampledProfile.Numeric.Decimal
import SampledProfile.Numeric.Scalar

namespace SampledProfile
namespace Exact

/-- A rational as numerator and denominator, the latter only where it is needed. -/
def text (x : Rat) : String :=
  if x.den = 1 then toString x.num else toString x.num ++ "/" ++ toString x.den

/-- A rational rounded to so many places, a half going to the even neighbour. -/
def fixed (places : Nat) (x : Rat) : String :=
  Decimal.fixedRatio places (decide (x < 0)) x.num.natAbs x.den

instance : Scalar Rat where
  zero := 0
  add := (· + ·)
  sub := (· - ·)
  mul := (· * ·)
  div := (· / ·)
  ofInt n := n
  exact := .finite
  mark _ x := x
  whole? x := if x.den = 1 then some x.num else none
  combineFault _ _ := none
  quotientFault _ b := if b = 0 then some .zeroDivision else none
  floor x := .ok x.floor
  text := text
  fixed places x := .ok (fixed places x)

end Exact
end SampledProfile
