/-
# Integers and doubles side by side

A number in a profile is written either as an integer or with a point or exponent.  An integer
stays exact, of any size; a number of the other form is a double.  Between two integers `+ - *`
give an integer; everything else, and every quotient, gives a double.

* a result of arithmetic may have no value at all.  All such results are alike; where it matters
  which of them is meant, `Number.undefined` carries a mark;
* `Number.toReal` takes an integer to the nearest double; one that is too large for a double
  has no place beside a double, which is `Scalar.combineFault`;
* the quotient of two integers is the double nearest to the exact ratio;
* texts are those of `Decimal`: `Decimal.plain` for a double, digits alone for an integer.
-/
import SampledProfile.Numeric.Decimal
import SampledProfile.Numeric.Scalar

namespace SampledProfile

/-- An integer or a double. -/
inductive Number where
  | int (value : Int)
  | real (value : Float)
  /-- A double that is not a number, with a mark to know it by. -/
  | undefined (mark : Nat)
  deriving DecidableEq

namespace Number

/-! ## 1. Values -/

/-- The exact value of a double. -/
def exactReal (x : Float) : Magnitude :=
  match Binary64.decode x with
  | .undefined => .undefined 0
  | .infinite negative => .infinite negative
  | .finite negative mantissa exponent =>
    let (num, den) := Binary64.ratio mantissa exponent
    .finite (mkRat (if negative then -Int.ofNat num else Int.ofNat num) den)

/-- The exact value of a number. -/
def exact : Number → Magnitude
  | .int n => .finite n
  | .real x => exactReal x
  | .undefined mark => .undefined mark

/-- The number, under a mark of its own if it has no value. -/
def marked (mark : Nat) (x : Number) : Number :=
  if x.exact.isDefined then x else .undefined mark

/-- The number as a double; an integer beyond all doubles becomes an infinity. -/
def toReal : Number → Float
  | .int n => (Binary64.ofInt? n).getD (Binary64.infinity (decide (n < 0)))
  | .real x => x
  | .undefined _ => Binary64.undefined

/-- Can the number be taken as a double? -/
def hasReal : Number → Bool
  | .int n => (Binary64.ofInt? n).isSome
  | .real _ => true
  | .undefined _ => true

/-! ## 2. Arithmetic -/

/-- Integers by the first operation, anything else by the second. -/
def combine (ints : Int → Int → Int) (reals : Float → Float → Float) :
    Number → Number → Number
  | .int a, .int b => .int (ints a b)
  | a, b => .real (reals a.toReal b.toReal)

/-- The double nearest to the quotient of two integers, if the quotient is not too large. -/
def intQuotient? (a b : Int) : Option Float :=
  Binary64.ofRatio? (decide (a < 0) != decide (b < 0)) a.natAbs b.natAbs

/-- The quotient. -/
def divide : Number → Number → Number
  | .int a, .int b => .real ((intQuotient? a b).getD (Binary64.infinity false))
  | a, b => .real (a.toReal / b.toReal)

/-- Two integers combine always, others if both can be taken as doubles. -/
def combineFault : Number → Number → Option Fault
  | .int _, .int _ => none
  | a, b => if a.hasReal && b.hasReal then none else some .overflow

/-- A divisor is not zero, and the quotient of integers not too large. -/
def quotientFault : Number → Number → Option Fault
  | .int a, .int b =>
    if b = 0 then some .zeroDivision
    else if (intQuotient? a b).isSome then none else some .overflow
  | a, b =>
    if !(a.hasReal && b.hasReal) then some .overflow
    else if b.exact = .finite 0 then some .zeroDivision
    else none

/-- The largest integer that is not above the number. -/
def floor (x : Number) : Except Fault Int :=
  match x.exact with
  | .finite value => .ok value.floor
  | .infinite _ => .error .overflow
  | .undefined _ => .error .badValue

/-! ## 3. Texts -/

/-- The text of a number. -/
def text : Number → String
  | .int n => toString n
  | x => Decimal.shortest Decimal.plain x.toReal

/-- The text with so many places; an integer is taken as a double first. -/
def fixed (places : Nat) (x : Number) : Except Fault String :=
  if x.hasReal then .ok (Decimal.fixed places x.toReal) else .error .overflow

instance : Scalar Number where
  zero := .real (Binary64.ofDecimal false 0 1 0)
  add := combine (· + ·) (· + ·)
  sub := combine (· - ·) (· - ·)
  mul := combine (· * ·) (· * ·)
  div := divide
  ofInt := .int
  exact := exact
  mark := marked
  whole?
    | .int n => some n
    | _ => none
  combineFault := combineFault
  quotientFault := quotientFault
  floor := floor
  text := text
  fixed := fixed

end Number
end SampledProfile
