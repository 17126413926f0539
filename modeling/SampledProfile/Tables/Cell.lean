/-
# Cells

A cell of a table holds nothing, an integer of 64 bits, a double, a text, or bytes.  `Cell.ofValue`
puts a value into a cell: an integer that is too large, a list and an object have no place in one,
and what is no number becomes nothing.

A column prefers one kind of cell, and turns what it is given into that kind where that loses
nothing (`Affinity.store`):

* an integer column takes whole doubles, and texts that are numbers, as integers;
* a text column takes numbers as their text, a double with fifteen digits (`Numeral.text`);
* a real column takes integers, and texts that are numbers, as doubles;
* a column of any kind takes everything as it is.

`Cell.same` says when two cells count as the same where a table allows no two of them.
-/
import SampledProfile.Numeric.Number
import SampledProfile.Tables.Numeral
import SampledProfile.Text.Numeral
import SampledProfile.Value.Basic

namespace SampledProfile

/-- Bytes are compared by the test of the core library, whatever a module imports besides. -/
instance decidableEqBytes : DecidableEq ByteArray := ByteArray.instDecidableEq

/-- What stands in a cell. -/
inductive Cell where
  | null
  | int (value : Int)
  | real (value : Float)
  | text (value : String)
  | bytes (data : ByteArray)
  deriving DecidableEq

/-! ## 1. Values in cells -/

namespace Cell

/-- Does an integer fit into 64 bits? -/
def fits (n : Int) : Bool := decide (-(Int.pow 2 63) ≤ n ∧ n < Int.pow 2 63)

/-- The cell that holds a double. -/
def ofReal (x : Float) : Cell :=
  match Number.exactReal x with
  | .undefined _ => .null
  | _ => .real x

/-- The cell that holds a value, if one can. -/
def ofValue : Value Number → Except Fault Cell
  | .null => .ok .null
  | .bool value => .ok (.int (if value then 1 else 0))
  | .num (.int n) => if fits n then .ok (.int n) else .error .overflow
  | .num (.real x) => .ok (ofReal x)
  | .num (.undefined _) => .ok .null
  | .str s => .ok (.text s)
  | .list _ => .error .notStorable
  | .obj _ => .error .notStorable

/-- Are two cells the same?  Nothing is the same as nothing else, and an integer is the same as a
double of its value. -/
def same : Cell → Cell → Bool
  | .null, _ => false
  | .int n, .real x => Scalar.same (Number.int n) (.real x)
  | .real x, .int n => Scalar.same (Number.int n) (.real x)
  | .real x, .real y => x == y
  | a, b => a = b

/-! ## 2. Texts that are numbers -/

/-- Is the character one that may surround a number? -/
def isGap (c : Char) : Bool :=
  c = ' ' || c = '\t' || c = '\n' || c = '\x0b' || c = '\x0c' || c = '\r'

/-- The double of digits with an exponent. -/
def realOf (negative : Bool) (whole fraction : List Char) (shift : Int) : Number :=
  let digits := Numeral.Digits.of whole fraction
  .real (Numeral.scaled negative { digits with power := digits.power + shift })

/-- The integer of some digits, or the nearest double if they are too many. -/
def wholeOf (negative : Bool) (digits : List Char) : Number :=
  let size := Int.ofNat (Text.digitsValue digits)
  let n := if negative then -size else size
  if fits n then .int n else realOf negative digits [] 0

/-- The number that an unsigned text is: digits, perhaps a point among them, perhaps an exponent,
and gaps behind. -/
def unsignedNumber? (negative : Bool) (cs : List Char) : Option Number :=
  let whole := Text.digitsOf cs
  let rest := cs.drop whole.length
  let (hasPoint, fraction) :=
    match rest with
    | '.' :: rest => (true, Text.digitsOf rest)
    | _ => (false, [])
  let rest := if hasPoint then rest.drop (fraction.length + 1) else rest
  if whole.isEmpty && fraction.isEmpty then none
  else
    match Text.exponentOf? rest with
    | some (down, digits, width) =>
      let size := Int.ofNat (Numeral.exponentSize digits)
      if (rest.drop width).all isGap then
        some (realOf negative whole fraction (if down then -size else size))
      else none
    | none =>
      if rest.all isGap then
        some (if hasPoint then realOf negative whole fraction 0 else wholeOf negative whole)
      else none

/-- The number that a text is. -/
def number? (s : String) : Option Number :=
  let cs := s.toList.dropWhile isGap
  let (negative, width) := Text.signOf cs
  unsignedNumber? negative (cs.drop width)

end Cell

/-! ## 3. What columns prefer -/

/-- The kind of cell that a column prefers. -/
inductive Affinity where
  | integer
  | text
  | real
  | any
  deriving DecidableEq

namespace Affinity

/-- A number as an integer where it is one and neither of the two ends of the range. -/
def wholeCell : Number → Cell
  | .int n => .int n
  | x =>
    match x.exact with
    | .finite value =>
      if value.den = 1 ∧ -(Int.pow 2 63) < value.num ∧ value.num < Int.pow 2 63 then .int value.num
      else .real x.toReal
    | _ => .real x.toReal

/-- A number as a double, without a sign at zero. -/
def realCell (x : Number) : Cell :=
  match Number.exact x with
  | .finite 0 => .real (Number.toReal (.int 0))
  | _ => .real x.toReal

/-- The name of a preference. -/
def name : Affinity → String
  | .integer => "INTEGER"
  | .text => "TEXT"
  | .real => "REAL"
  | .any => "BLOB"

/-- A cell as the column holds it. -/
def store : Affinity → Cell → Cell
  | _, .null => .null
  | _, .bytes data => .bytes data
  | .any, cell => cell
  | .integer, .int n => .int n
  | .integer, .real x => wholeCell (.real x)
  | .integer, .text s => ((Cell.number? s).map wholeCell).getD (.text s)
  | .text, .int n => .text (toString n)
  | .text, .real x => .text (Numeral.text x)
  | .text, .text s => .text s
  | .real, .int n => realCell (.int n)
  | .real, .real x => realCell (.real x)
  | .real, .text s => ((Cell.number? s).map realCell).getD (.text s)

example : store .integer (.text " +1.5e1 ") = .int 15 := by decide +kernel
example : store .integer (.text "1e") = .text "1e" := by decide +kernel

end Affinity
end SampledProfile
