/-
# Reading JSON

`Json.read` reads one value from a text, with blanks around it and nothing else.  Beyond the
standard it accepts `NaN`, `Infinity` and `-Infinity`; of a name that stands twice in an object
the last value counts, at the place of the first.

A text that is no such value is refused with a `Problem` and the position where it was met,
counted in characters from zero; `Refusal.message` adds line and column.  Two refusals are of
another kind: a whole number of more than 4300 digits is `tooManyDigits`.

A text consists of characters, and half of a pair of codes is none.  Where an escape stands for such
a half alone, the replacement mark takes its place (`ofCode`), so that texts which differ in lone
halves only are read as one.  Profiles with lone halves in them are left out.

The reader works on the list of characters and a count of those already read (`Cursor`).  Its
depth is bounded by the length of the text, which serves as fuel.
-/
import SampledProfile.Numeric.Number
import SampledProfile.Text.Digit
import SampledProfile.Text.Numeral
import SampledProfile.Value.Basic

namespace SampledProfile
namespace Json

/-! ## 1. Refusals -/

/-- What is wrong at a place in a text. -/
inductive Problem where
  | unexpectedMark
  | expectingValue
  | extraData
  | expectingName
  | expectingColon
  | expectingComma
  | unterminatedString
  | controlCharacter
  | badEscape
  | badCodePoint
  deriving DecidableEq

/-- The text of a problem. -/
def Problem.text : Problem → String
  | .unexpectedMark => "Unexpected UTF-8 BOM (decode using utf-8-sig)"
  | .expectingValue => "Expecting value"
  | .extraData => "Extra data"
  | .expectingName => "Expecting property name enclosed in double quotes"
  | .expectingColon => "Expecting ':' delimiter"
  | .expectingComma => "Expecting ',' delimiter"
  | .unterminatedString => "Unterminated string starting at"
  | .controlCharacter => "Invalid control character at"
  | .badEscape => "Invalid \\escape"
  | .badCodePoint => "Invalid \\uXXXX escape"

/-- Why a text is refused. -/
inductive Refusal where
  /-- There is a problem at a position. -/
  | at (problem : Problem) (position : Nat)
  /-- A whole number is too long. -/
  | tooManyDigits
  deriving DecidableEq

/-- Line and column of a position, both counted from one. -/
def place (cs : List Char) (position : Nat) : Nat × Nat :=
  let before := cs.take position
  let line := before.countP (· == '\n')
  let column := (before.reverse.takeWhile (· != '\n')).length
  (line + 1, column + 1)

/-- The text of a problem together with its place. -/
def Problem.message (problem : Problem) (cs : List Char) (position : Nat) : String :=
  let (line, column) := place cs position
  problem.text ++ ": line " ++ toString line ++ " column " ++ toString column ++
    " (char " ++ toString position ++ ")"

/-! ## 2. Steps of the reader -/

/-- What is left of a text, and how many characters came before. -/
structure Cursor where
  position : Nat
  rest : List Char

/-- What a step of the reader gives: a result and what is left, or a refusal. -/
abbrev Step (β : Type) := Except Refusal (β × Cursor)

/-- Refuses at the place of the cursor. -/
def Cursor.refuse {β : Type} (c : Cursor) (problem : Problem) : Step β :=
  .error (.at problem c.position)

/-- Goes on by so many characters. -/
def Cursor.forward (c : Cursor) (n : Nat) : Cursor := ⟨c.position + n, c.rest.drop n⟩

/-- Is the character a blank between values? -/
def isGap (c : Char) : Bool := c = ' ' || c = '\t' || c = '\n' || c = '\r'

/-- Skips blanks. -/
def Cursor.skip (c : Cursor) : Cursor := c.forward (c.rest.takeWhile isGap).length

/-! ## 3. Text -/

/-- The value of four hexadecimal digits. -/
def hexWord? (a b c d : Char) : Option Nat :=
  match Text.hexDigit? a, Text.hexDigit? b, Text.hexDigit? c, Text.hexDigit? d with
  | some a, some b, some c, some d => some (((a * 16 + b) * 16 + c) * 16 + d)
  | _, _, _, _ => none

/-- What a character after a backslash stands for. -/
def escaped? : Char → Option Char
  | '"' => some '"'
  | '\\' => some '\\'
  | '/' => some '/'
  | 'b' => some '\x08'
  | 'f' => some '\x0c'
  | 'n' => some '\n'
  | 'r' => some '\r'
  | 't' => some '\t'
  | _ => none

/-- Is the code the first half of a pair? -/
def isHighHalf (code : Nat) : Bool := decide (0xD800 ≤ code ∧ code ≤ 0xDBFF)

/-- Is the code the second half of a pair? -/
def isLowHalf (code : Nat) : Bool := decide (0xDC00 ≤ code ∧ code ≤ 0xDFFF)

/-- The character of a code; a lone half of a pair is none and becomes the replacement mark. -/
def ofCode (code : Nat) : Char :=
  if code.isValidChar then Char.ofNat code else '\uFFFD'

/-- The character of a pair of halves. -/
def ofPair (high low : Nat) : Char :=
  Char.ofNat (0x10000 + (high - 0xD800) * 0x400 + (low - 0xDC00))

/-- Reads the rest of a text in quotes that began at `opening`; `read` holds the characters so
far in reverse. -/
def textFrom (opening : Nat) : Nat → List Char → List Char → Step String
  | _, [], _ => .error (.at .unterminatedString opening)
  | pos, '"' :: rest, read => .ok (String.ofList read.reverse, ⟨pos + 1, rest⟩)
  | _, ['\\'], _ => .error (.at .unterminatedString opening)
  | pos, '\\' :: 'u' :: a :: b :: c :: d :: e :: rest, read =>
    match hexWord? a b c d with
    | none => .error (.at .badCodePoint (pos + 1))
    | some code =>
      match e, rest with
      | '\\', 'u' :: a' :: b' :: c' :: d' :: f :: rest' =>
        if isHighHalf code then
          match hexWord? a' b' c' d' with
          | none => .error (.at .badCodePoint (pos + 7))
          | some low =>
            if isLowHalf low then
              textFrom opening (pos + 12) (f :: rest') (ofPair code low :: read)
            else
              textFrom opening (pos + 6) ('\\' :: 'u' :: a' :: b' :: c' :: d' :: f :: rest')
                (ofCode code :: read)
        else
          textFrom opening (pos + 6) ('\\' :: 'u' :: a' :: b' :: c' :: d' :: f :: rest')
            (ofCode code :: read)
      | e, rest => textFrom opening (pos + 6) (e :: rest) (ofCode code :: read)
  | pos, '\\' :: 'u' :: _, _ => .error (.at .badCodePoint (pos + 1))
  | pos, '\\' :: c :: rest, read =>
    match escaped? c with
    | some c => textFrom opening (pos + 2) rest (c :: read)
    | none => .error (.at .badEscape pos)
  | pos, c :: rest, read =>
    if c.toNat < 0x20 then .error (.at .controlCharacter pos)
    else textFrom opening (pos + 1) rest (c :: read)

/-! ## 4. Numbers -/

/-- A point and the digits after it, if there are both. -/
def fractionOf : List Char → List Char
  | '.' :: rest => if (Text.digitsOf rest).isEmpty then [] else Text.digitsOf rest
  | _ => []

/-- The digits of a whole part: a zero alone, or digits that do not begin with zero. -/
def wholeOf : List Char → List Char
  | '0' :: _ => ['0']
  | cs => Text.digitsOf cs

/-- Reads a number at the cursor. -/
def number (c : Cursor) : Step (Value Number) :=
  let negative := c.rest.head? = some '-'
  let signWidth := if negative then 1 else 0
  let whole := wholeOf (c.rest.drop signWidth)
  if whole.isEmpty then c.refuse .expectingValue
  else
    let afterWhole := c.rest.drop (signWidth + whole.length)
    let fraction := fractionOf afterWhole
    let fractionWidth := if fraction.isEmpty then 0 else fraction.length + 1
    let exponent := Text.exponentOf? (afterWhole.drop fractionWidth)
    match fraction, exponent with
    | [], none =>
      if Text.mostDigits < whole.length then .error .tooManyDigits
      else
        let n := Int.ofNat (Text.digitsValue whole)
        .ok (.num (.int (if negative then -n else n)), c.forward (signWidth + whole.length))
    | fraction, exponent =>
      let (shift, exponentWidth) :=
        match exponent with
        | some (down, digits, width) => (Text.exponentValue down digits, width)
        | none => (0, 0)
      let digits := whole ++ fraction
      let x := Binary64.ofDecimal negative (Text.digitsValue digits) digits.length
        (shift - Int.ofNat fraction.length)
      .ok (.num (.real x), c.forward (signWidth + whole.length + fractionWidth + exponentWidth))

/-! ## 5. Values -/

/-- The words that stand for values. -/
def words : List (String × Value Number) := [
  ("null", .null), ("true", .bool true), ("false", .bool false),
  ("NaN", .num (.real Binary64.undefined)),
  ("Infinity", .num (.real (Binary64.infinity false))),
  ("-Infinity", .num (.real (Binary64.infinity true)))]

/-- Reads a word at the cursor, or else a number. -/
def word (c : Cursor) : Step (Value Number) :=
  match words.find? fun entry => entry.1.toList.isPrefixOf c.rest with
  | some (name, value) => .ok (value, c.forward name.length)
  | none => number c

mutual

/-- Reads a value at the cursor. -/
def value : Nat → Cursor → Step (Value Number)
  | 0, c => c.refuse .expectingValue
  | fuel + 1, c =>
    match c.rest with
    | '"' :: rest => (textFrom c.position (c.position + 1) rest []).map fun (s, c) => (.str s, c)
    | '[' :: _ =>
      let c := (c.forward 1).skip
      match c.rest with
      | ']' :: _ => .ok (.list [], c.forward 1)
      | _ => items fuel c []
    | '\x7b' :: _ =>
      let c := (c.forward 1).skip
      match c.rest with
      | '\x7d' :: _ => .ok (.obj [], c.forward 1)
      | _ => members fuel c []
    | _ => word c

/-- Reads the items of a list and its end; `read` holds the items so far in reverse. -/
def items : Nat → Cursor → List (Value Number) → Except Refusal (Value Number × Cursor)
  | 0, c, _ => c.refuse .expectingValue
  | fuel + 1, c, read => do
    let (item, c) ← value fuel c
    let c := c.skip
    match c.rest with
    | ']' :: _ => .ok (.list (item :: read).reverse, c.forward 1)
    | ',' :: _ => items fuel (c.forward 1).skip (item :: read)
    | _ => c.refuse .expectingComma

/-- Reads the members of an object and its end; `read` holds the fields so far. -/
def members : Nat → Cursor → Fields Number → Except Refusal (Value Number × Cursor)
  | 0, c, _ => c.refuse .expectingValue
  | fuel + 1, c, read =>
    match c.rest with
    | '"' :: rest => do
      let (name, c) ← textFrom c.position (c.position + 1) rest []
      let c := c.skip
      match c.rest with
      | ':' :: _ =>
        let (item, c) ← value fuel (c.forward 1).skip
        let c := c.skip
        let read := read.set name item
        match c.rest with
        | '\x7d' :: _ => .ok (.obj read, c.forward 1)
        | ',' :: _ => members fuel (c.forward 1).skip read
        | _ => c.refuse .expectingComma
      | _ => c.refuse .expectingColon
    | _ => c.refuse .expectingName

end

/-- Reads a text that holds one value. -/
def read (cs : List Char) : Except Refusal (Value Number) :=
  if cs.head? = some '\uFEFF' then .error (.at .unexpectedMark 0)
  else do
    let (result, c) ← value (2 * cs.length + 2) (Cursor.mk 0 cs).skip
    let c := c.skip
    if c.rest.isEmpty then .ok result else .error (.at .extraData c.position)

end Json
end SampledProfile
