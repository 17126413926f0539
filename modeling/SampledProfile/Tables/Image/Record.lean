/-
# Rows in a file of tables

A row is written as the kinds of its cells and then what they hold (`record`).  A kind says how many
bytes the cell takes: integers take as few as they fit into, doubles eight, and the kind of a text
or of bytes grows with their length.

Reading (`cellsOf`) knows more than is written here: the kinds of the integers zero and one, which
take no bytes, and texts of 16-bit units.

A row that is too large for its page goes on in other ones; `localSize` is the part that stays.
-/
import SampledProfile.Tables.Basic
import SampledProfile.Tables.Image.Bytes

namespace SampledProfile
namespace Image

/-! ## 1. Writing -/

/-- The sizes that integers come in, in bytes, with the kinds that they are known under. -/
def widths : List (Nat × Nat) := [(1, 1), (2, 2), (3, 3), (4, 4), (6, 5)]

/-- Does an integer fit into so many bytes? -/
def fitsIn (n : Int) (width : Nat) : Bool :=
  decide (-(Int.pow 2 (8 * width - 1)) ≤ n ∧ n < Int.pow 2 (8 * width - 1))

/-- The kind of a cell and what it holds. -/
def cell : Cell → Nat × List UInt8
  | .null => (0, [])
  | .int n =>
    let (width, kind) := (widths.find? fun entry => fitsIn n entry.1).getD (8, 6)
    (kind, bytes width (wrapped width n))
  | .real x => (7, bytes 8 x.toBits.toNat)
  | .text text =>
    let data := text.toUTF8.toList
    (13 + 2 * data.length, data)
  | .bytes data => (12 + 2 * data.size, data.toList)

/-- How many bytes the kinds of a row take, together with this number in front. -/
def kindsSize (size : Nat) : Nat :=
  if size + 1 < Nat.pow 2 7 then size + 1
  else if size + 2 < Nat.pow 2 14 then size + 2
  else size + 3

/-- A row as bytes. -/
def record (row : Row) : List UInt8 :=
  let cells := row.map cell
  let kinds := cells.flatMap fun cell => varint cell.1
  varint (kindsSize kinds.length) ++ kinds ++ cells.flatMap Prod.snd

/-! ## 2. Reading -/

/-- How texts are written in a file. -/
inductive Encoding where
  | utf8
  | units16 (highFirst : Bool)

/-- The 16-bit units of some bytes. -/
def unitsOf (highFirst : Bool) : List UInt8 → List Nat
  | a :: b :: rest =>
    (if highFirst then 256 * a.toNat + b.toNat else 256 * b.toNat + a.toNat) ::
      unitsOf highFirst rest
  | _ => []

/-- The characters of some 16-bit units; half of a pair stands for nothing that can be read. -/
def charsOf : List Nat → List Char
  | [] => []
  | a :: rest =>
    if 0xD800 ≤ a ∧ a < 0xDC00 then
      match rest with
      | b :: after =>
        if 0xDC00 ≤ b ∧ b < 0xE000 then
          Char.ofNat (0x10000 + (a - 0xD800) * 0x400 + (b - 0xDC00)) :: charsOf after
        else Char.ofNat 0xFFFD :: charsOf (b :: after)
      | [] => [Char.ofNat 0xFFFD]
    else (if 0xDC00 ≤ a ∧ a < 0xE000 then Char.ofNat 0xFFFD else Char.ofNat a) :: charsOf rest

/-- The text of some bytes. -/
def Encoding.text (encoding : Encoding) (data : ByteArray) : String :=
  match encoding with
  | .utf8 => (String.fromUTF8? data).getD ""
  | .units16 highFirst => String.ofList (charsOf (unitsOf highFirst data.toList))

/-- How many bytes a cell of a kind takes. -/
def widthOf (kind : Nat) : Nat :=
  if 12 ≤ kind then (kind - 12) / 2
  else ((widths.find? fun entry => entry.2 = kind).map Prod.fst).getD
    (if kind = 6 ∨ kind = 7 then 8 else 0)

/-- The cell of a kind at a place. -/
def cellAt (encoding : Encoding) (data : ByteArray) (kind place : Nat) : Cell :=
  let width := widthOf kind
  if 12 ≤ kind then
    let part := partAt data place width
    if kind % 2 = 0 then .bytes part else .text (encoding.text part)
  else if kind = 7 then Cell.ofReal (Float.ofBits (UInt64.ofNat (numberAt data place 8)))
  else if kind = 8 then .int 0
  else if kind = 9 then .int 1
  else if width = 0 then .null
  else .int (signed width (numberAt data place width))

/-- The kinds from a place up to another one; there is at most one for each byte, and `fuel` bounds
their number. -/
def kindsAt (data : ByteArray) (stop : Nat) : Nat → Nat → List Nat
  | 0, _ => []
  | fuel + 1, place =>
    if stop ≤ place then []
    else
      let (kind, next) := varintAt data place
      kind :: kindsAt data stop fuel next

/-- The cells of some kinds, one behind the other. -/
def cellsAt (encoding : Encoding) (data : ByteArray) : Nat → List Nat → Row
  | _, [] => []
  | place, kind :: rest =>
    cellAt encoding data kind place :: cellsAt encoding data (place + widthOf kind) rest

/-- The row that some bytes stand for. -/
def cellsOf (encoding : Encoding) (data : ByteArray) : Row :=
  let (stop, place) := varintAt data 0
  cellsAt encoding data stop (kindsAt data stop data.size place)

/-! ## 3. Rows in pages -/

/-- The bytes of a row that stand in its page, if they are more than `most`: at least a certain
number, and so many more that the pages behind are full, if there is room.  Of each page `usable`
bytes can be used. -/
def localSize (usable most size : Nat) : Nat :=
  let least := (usable - 12) * 32 / 255 - 23
  let wanted := least + (size - least) % (usable - 4)
  if size ≤ most then size else if wanted ≤ most then wanted else least

/-- The greatest part of a row that stands in a page of a table. -/
def mostOfRow (usable : Nat) : Nat := usable - 35

/-- The greatest part of an entry that stands in a page of an index. -/
def mostOfEntry (usable : Nat) : Nat := (usable - 12) * 64 / 255 - 23

end Image
end SampledProfile
