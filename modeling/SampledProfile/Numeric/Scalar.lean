/-
# The numbers a profile is measured in

Times, durations and hit counts are numbers, and everything about call trees, sample streams
and replays is stated for any kind of number that offers the operations of `Scalar`.

* `Magnitude` is the exact value of a number: a rational, an infinity, or none at all.  All
  comparisons go through it, so two numbers of different forms compare by what they are.  Numbers
  without a value compare with nothing, themselves included; a mark says which of them is which;
* `Scalar` has total `+ - * /`.  Where a form of number cannot hold a result, `combineFault`
  and `quotientFault` say so beforehand, and `Scalar.add?` and its companions ask them.

Instances are the mixed numbers of `SampledProfile.Numeric.Number` and, for reading times
exactly, the rationals of `SampledProfile.Numeric.Exact`.
-/
import SampledProfile.Fault

namespace SampledProfile

/-! ## 1. Exact values -/

/-- The exact value of a number. -/
inductive Magnitude where
  /-- A rational number. -/
  | finite (value : Rat)
  /-- An infinity of the given sign. -/
  | infinite (negative : Bool)
  /-- No value; it compares with nothing.  Numbers with one mark are one and the same. -/
  | undefined (mark : Nat)
  deriving DecidableEq

namespace Magnitude

/-- Is the first strictly below the second? -/
def lt : Magnitude → Magnitude → Bool
  | .finite a, .finite b => decide (a < b)
  | .finite _, .infinite negative => !negative
  | .infinite negative, .finite _ => negative
  | .infinite m, .infinite n => m && !n
  | .undefined _, _ => false
  | _, .undefined _ => false

/-- Are both the same value? -/
def same : Magnitude → Magnitude → Bool
  | .undefined _, _ => false
  | a, b => decide (a = b)

/-- Is the first at or above the second? -/
def ge (a b : Magnitude) : Bool := lt b a || same a b

/-- Is there a value? -/
def isDefined : Magnitude → Bool
  | .undefined _ => false
  | _ => true

end Magnitude

/-! ## 2. Numbers -/

/-- A kind of number. -/
class Scalar (α : Type) extends Zero α, Add α, Sub α, Mul α, Div α where
  /-- An integer as a number of this kind. -/
  ofInt : Int → α
  /-- The exact value. -/
  exact : α → Magnitude
  /-- The number, under a mark of its own if it has no value. -/
  mark : Nat → α → α
  /-- The integer, if the number is written as one. -/
  whole? : α → Option Int
  /-- Why two numbers cannot be added, subtracted or multiplied, if they cannot. -/
  combineFault : α → α → Option Fault
  /-- Why the first cannot be divided by the second, if it cannot. -/
  quotientFault : α → α → Option Fault
  /-- The largest integer that is not above the number. -/
  floor : α → Except Fault Int
  /-- The text of the number. -/
  text : α → String
  /-- The text of the number with so many places after the point. -/
  fixed : Nat → α → Except Fault String

namespace Scalar

variable {α : Type} [Scalar α]

/-- Is the first number strictly below the second? -/
def lt (a b : α) : Bool := (exact a).lt (exact b)

/-- Have both numbers the same value? -/
def same (a b : α) : Bool := (exact a).same (exact b)

/-- Is the first number at or above the second? -/
def ge (a b : α) : Bool := (exact a).ge (exact b)

/-- Is the number zero? -/
def isZero (a : α) : Bool := decide (exact a = .finite 0)

/-- Fails with a cause, if there is one. -/
def guarded (cause : Option Fault) (result : α) : Except Fault α :=
  match cause with
  | some fault => .error fault
  | none => .ok result

/-- The sum, where there is one. -/
def add? (a b : α) : Except Fault α := guarded (combineFault a b) (a + b)

/-- The difference, where there is one. -/
def sub? (a b : α) : Except Fault α := guarded (combineFault a b) (a - b)

/-- The product, where there is one. -/
def mul? (a b : α) : Except Fault α := guarded (combineFault a b) (a * b)

/-- The quotient, where there is one. -/
def div? (a b : α) : Except Fault α := guarded (quotientFault a b) (a / b)

end Scalar
end SampledProfile
