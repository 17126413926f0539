/-
# Writing JSON

`Json.write` puts a value on one line, with a comma and a blank between items and a colon and a
blank after names.  All characters but the visible ones of ASCII are written as `\uXXXX`, above the
first plane as a pair of halves; numbers as `Scalar.text` gives them, except that the three values
that are no finite number are `NaN`, `Infinity` and `-Infinity`.

The text is written piece by piece.  Integers with too many digits to be shown end the writing of a
file, and what was written before them stays (`Json.part`).
-/
import SampledProfile.Value.Text

namespace SampledProfile
namespace Json

/-- A code unit as an escape. -/
def unitEscape (code : Nat) : List Char := ['\\', 'u'] ++ Text.hex 4 code

/-- A character inside quotes. -/
def charText (c : Char) : List Char :=
  if c = '"' || c = '\\' then ['\\', c]
  else if c = '\n' then ['\\', 'n']
  else if c = '\r' then ['\\', 'r']
  else if c = '\t' then ['\\', 't']
  else if c = '\x0c' then ['\\', 'f']
  else if c = '\x08' then ['\\', 'b']
  else if 0x20 ≤ c.toNat ∧ c.toNat < 0x7F then [c]
  else if c.toNat < 0x10000 then unitEscape c.toNat
  else
    let above := c.toNat - 0x10000
    unitEscape (0xD800 + above / 0x400) ++ unitEscape (0xDC00 + above % 0x400)

/-- A text in quotes. -/
def quoted (s : String) : String :=
  String.ofList (['"'] ++ s.toList.flatMap charText ++ ['"'])

variable {α : Type} [Scalar α]

/-- A number. -/
def numberText (x : α) : String :=
  match Scalar.exact x with
  | .undefined _ => "NaN"
  | .infinite false => "Infinity"
  | .infinite true => "-Infinity"
  | .finite _ => Scalar.text x

/-- A piece of text; one that is refused is the text of a number with too many digits. -/
structure Piece where
  text : String
  refused : Bool
  deriving DecidableEq

/-- A piece that is not refused. -/
def plain (text : String) : Piece := ⟨text, false⟩

/-- Pieces with a text in front that belongs to the first of them. -/
def behind (text : String) : List Piece → List Piece
  | [] => [plain text]
  | first :: rest => ⟨text ++ first.text, first.refused⟩ :: rest

mutual

/-- The pieces of a value. -/
def pieces : Value α → List Piece
  | .null => [plain "null"]
  | .bool true => [plain "true"]
  | .bool false => [plain "false"]
  | .num value => [⟨numberText value, !Scalar.hasText value⟩]
  | .str text => [plain (quoted text)]
  | .list [] => [plain "[]"]
  | .list (item :: rest) => behind "[" (pieces item) ++ morePieces rest ++ [plain "]"]
  | .obj [] => [plain "\x7b\x7d"]
  | .obj ((name, value) :: rest) =>
    plain ("\x7b" ++ quoted name ++ ": ") :: pieces value ++ fieldPieces rest ++ [plain "\x7d"]

/-- The pieces of items behind another one. -/
def morePieces : List (Value α) → List Piece
  | [] => []
  | item :: rest => behind ", " (pieces item) ++ morePieces rest

/-- The pieces of fields behind another one. -/
def fieldPieces : List (String × Value α) → List Piece
  | [] => []
  | (name, value) :: rest =>
    plain (", " ++ quoted name ++ ": ") :: pieces value ++ fieldPieces rest

end

/-- A value on one line. -/
def write (v : Value α) : String := String.join ((pieces v).map Piece.text)

/-- What is written of a value, and whether that is all of it. -/
def part (v : Value α) : String × Bool :=
  let pieces := pieces v
  (String.join ((pieces.takeWhile fun piece => !piece.refused).map Piece.text),
    pieces.all fun piece => !piece.refused)

end Json
end SampledProfile
