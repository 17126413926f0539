/-
# Integers as people type them

An integer is read from digits of any script, with a sign in front if wanted, single underscores
between digits, and blanks around it all.  More than 4300 digits are refused.
-/
import SampledProfile.Text.Blank
import SampledProfile.Text.Digit

namespace SampledProfile
namespace Text

/-- The digits of a number with single underscores between them. -/
def digitRun? : List Char → Option (List Nat)
  | [] => none
  | [c] => (digit? c).map fun digit => [digit]
  | c :: '_' :: rest =>
    match digit? c, digitRun? rest with
    | some digit, some digits => some (digit :: digits)
    | _, _ => none
  | c :: d :: rest =>
    match digit? c, digitRun? (d :: rest) with
    | some digit, some digits => some (digit :: digits)
    | _, _ => none

/-- The number that decimal digits make. -/
def ofDigits (digits : List Nat) : Nat := digits.foldl (fun n digit => 10 * n + digit) 0

/-- A natural number without sign and blanks. -/
def natural? (cs : List Char) : Option Nat :=
  match digitRun? cs with
  | some digits => if mostDigits < digits.length then none else some (ofDigits digits)
  | none => none

/-- The integer that a text stands for. -/
def integer? (cs : List Char) : Option Int :=
  match trimBlanks cs with
  | '-' :: rest => (natural? rest).map fun n => -Int.ofNat n
  | '+' :: rest => (natural? rest).map Int.ofNat
  | cs => (natural? cs).map Int.ofNat

example : integer? " -1_0\n".toList = some (-10) := by decide
example : integer? "1__0".toList = none ∧ integer? "_1".toList = none := by decide
example : integer? "+ 5".toList = none ∧ integer? [] = none := by decide

end Text
end SampledProfile
