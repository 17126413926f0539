/-
# Numbers and texts in tables

A table turns texts into doubles and doubles into texts, with 64 binary digits on the way
(`Extended`), and keeps to one way of doing so, as files have to hold the same numbers everywhere.

* A text has digits, of which the first eighteen or nineteen count, and a power of ten.  The digits
  are multiplied or divided by the power, and the result is rounded to a double (`Numeral.scaled`).
* A double is brought between one and ten by powers of ten, half a unit of the fifteenth digit is
  added, and the digits are taken off one by one (`Numeral.text`).

Neither is always the nearest number, and neither has to undo the other.
-/
import SampledProfile.Numeric.Decimal
import SampledProfile.Numeric.Extended
import SampledProfile.Text.Numeral

namespace SampledProfile
namespace Numeral

/-! ## 1. From texts to doubles -/

/-- The greatest integer of 64 bits. -/
def greatest : Nat := Nat.pow 2 63 - 1

/-- Digits that make an integer, to be multiplied by a power of ten. -/
structure Digits where
  value : Nat
  power : Int
  deriving DecidableEq

namespace Digits

/-- Is there no room for another digit? -/
def isFull (digits : Digits) : Bool := decide ((greatest - 9) / 10 ≤ digits.value)

/-- The value of the character of a digit. -/
def valueOf (c : Char) : Nat := c.toNat - '0'.toNat

/-- Takes up a digit before the point. -/
def pushWhole (digits : Digits) (c : Char) : Digits :=
  if digits.isFull then { digits with power := digits.power + 1 }
  else { digits with value := 10 * digits.value + valueOf c }

/-- Takes up a digit behind the point. -/
def pushFraction (digits : Digits) (c : Char) : Digits :=
  if digits.isFull then digits else ⟨10 * digits.value + valueOf c, digits.power - 1⟩

/-- The digits before and behind a point. -/
def of (whole fraction : List Char) : Digits :=
  fraction.foldl pushFraction (whole.foldl pushWhole ⟨0, 0⟩)

/-- Moves as much of the power into the digits as goes in without a loss, in at most `fuel`
steps. -/
def settle : Nat → Digits → Digits
  | 0, digits => digits
  | fuel + 1, digits =>
    if 0 < digits.power ∧ digits.value < greatest / 10 then
      settle fuel ⟨10 * digits.value, digits.power - 1⟩
    else if digits.power < 0 ∧ digits.value % 10 = 0 then
      settle fuel ⟨digits.value / 10, digits.power + 1⟩
    else digits

end Digits

/-- The size of an exponent; beyond some size it does not matter how large it is. -/
def exponentSize (digits : List Char) : Nat :=
  digits.foldl (fun n c => if n < 10000 then 10 * n + Digits.valueOf c else 10000) 0

/-- The greatest power of ten that is taken in one step. -/
def widest : Nat := 307

/-- The least power of ten that leads out of the doubles in any case. -/
def tooWide : Nat := 342

/-- The double `10 ^ 308`. -/
def outermost : Float := Binary64.ofDecimal false 1 1 308

/-- The double that digits multiplied by a power of ten make. -/
def scaled (negative : Bool) (digits : Digits) : Float :=
  let digits := digits.settle 20
  let value := Extended.ofNat digits.value
  let size := digits.power.natAbs
  let down := decide (digits.power < 0)
  let by10 (n : Nat) : Float :=
    Extended.toReal negative
      (if down then value.div (Extended.powTen n) else value.mul (Extended.powTen n))
  if digits.value = 0 then Extended.toReal negative ⟨0, 0⟩
  else if size ≤ widest then by10 size
  else if size < tooWide then
    if down then by10 (size - 308) / outermost else by10 (size - 308) * outermost
  else if down then Extended.toReal negative ⟨0, 0⟩
  else Binary64.infinity negative

/-! ## 2. From doubles to texts -/

/-- The layout of a double as text. -/
def layout : Decimal.Layout := ⟨-4, 15, "e", 2, ".0", ".0"⟩

/-- The number of digits of a double as text. -/
def significance : Nat := 15

/-- A double `digits · 10 ^ exponent`, for constants. -/
def constant (digits : Nat) (exponent : Int) : Extended :=
  Extended.ofReal (Binary64.ofDecimal false digits 2 exponent)

/-- Half a unit of the last digit, for a number between one and ten. -/
def half : Extended :=
  Extended.ofReal (Binary64.ofDecimal false 5 1 (-5) * Binary64.ofDecimal false 1 1 (-10))

/-- Multiplies a scale by a power of ten as long as a number is at least the next one; the exponent
is counted along, and `fuel` bounds the number of steps. -/
def widen (x : Extended) (factor : Extended) (step : Int) :
    Nat → Extended × Int → Extended × Int
  | 0, scale => scale
  | fuel + 1, (scale, exponent) =>
    if (factor.mul scale).le x then
      widen x factor step fuel (scale.mul factor, exponent + step)
    else (scale, exponent)

/-- Multiplies a number by a power of ten as long as it is below a bound; the exponent is counted
along, and `fuel` bounds the number of steps. -/
def raise (bound factor : Extended) (step : Int) : Nat → Extended × Int → Extended × Int
  | 0, x => x
  | fuel + 1, (x, exponent) =>
    if bound.le x then (x, exponent)
    else raise bound factor step fuel (x.mul factor, exponent - step)

/-- A positive number as one between one and ten, and the exponent of ten. -/
def normalize (x : Extended) : Extended × Int :=
  let scale := widen x (constant 1 100) 100 4 (Extended.ofNat 1, 0)
  let scale := widen x (constant 1 10) 10 10 scale
  let (scale, exponent) := widen x (Extended.ofNat 10) 1 10 scale
  let x := raise (constant 1 (-8)) (constant 1 8) 8 50 (x.div scale, exponent)
  raise (Extended.ofNat 1) (Extended.ofNat 10) 1 10 x

/-- The number rounded up by half a unit of the last digit. -/
def rounded (x : Extended × Int) : Extended × Int :=
  let up := x.1.add half
  if (Extended.ofNat 10).le up then (up.mul (constant 1 (-1)), x.2 + 1) else (up, x.2)

/-- So many digits of a number below ten, put behind other ones. -/
def takeDigits : Nat → Nat → Extended → Nat
  | 0, taken, _ => taken
  | count + 1, taken, x =>
    let digit := x.floor
    takeDigits count (10 * taken + digit) ((x.sub (Extended.ofNat digit)).mul (Extended.ofNat 10))

/-- The digits of a positive number. -/
def digitsOf (x : Extended) : Decimal.Digits :=
  let (x, exponent) := rounded (normalize x)
  ⟨Decimal.dropZeros significance (takeDigits significance 0 x), exponent + 1⟩

/-- The text of a double. -/
def text (x : Float) : String :=
  match Binary64.decode x with
  | .undefined => ""
  | .infinite negative => Decimal.signed negative "Inf"
  | .finite negative mantissa exponent =>
    if mantissa = 0 then "0.0"
    else Decimal.signed negative (layout.render (digitsOf ⟨mantissa, exponent⟩))

end Numeral
end SampledProfile
