/-
# Numerals

The parts of which decimal numbers are written: runs of digits, and exponents behind a mark.  The
readers of numbers are put together from them.  Hexadecimal digits go on with letters.
-/
namespace SampledProfile
namespace Text

/-- The digits at the start. -/
def digitsOf (cs : List Char) : List Char := cs.takeWhile Char.isDigit

/-- The number that decimal digits stand for. -/
def digitsValue (cs : List Char) : Nat := cs.foldl (fun n c => 10 * n + (c.toNat - '0'.toNat)) 0

/-- The value of a hexadecimal digit. -/
def hexDigit? (c : Char) : Option Nat :=
  if '0' ≤ c ∧ c ≤ '9' then some (c.toNat - '0'.toNat)
  else if 'a' ≤ c ∧ c ≤ 'f' then some (c.toNat - 'a'.toNat + 10)
  else if 'A' ≤ c ∧ c ≤ 'F' then some (c.toNat - 'A'.toNat + 10)
  else none

/-- A sign in front: is it a minus, and how many characters does it take? -/
def signOf : List Char → Bool × Nat
  | '-' :: _ => (true, 1)
  | '+' :: _ => (false, 1)
  | _ => (false, 0)

/-- The sign, digits and length of an exponent with its mark, if it is complete. -/
def exponentOf? : List Char → Option (Bool × List Char × Nat)
  | mark :: rest =>
    if mark = 'e' || mark = 'E' then
      let (negative, signWidth) := signOf rest
      let digits := digitsOf (rest.drop signWidth)
      if digits.isEmpty then none else some (negative, digits, 1 + signWidth + digits.length)
    else none
  | [] => none

/-- An exponent as an integer, cut off where only its size matters. -/
def exponentValue (negative : Bool) (digits : List Char) : Int :=
  let digits := digits.dropWhile (· == '0')
  let size := if 18 < digits.length then Nat.pow 10 18 else digitsValue digits
  if negative then -Int.ofNat size else Int.ofNat size

end Text
end SampledProfile
