/-
# Numbers in a file of tables

Numbers stand in a file in two ways: with a certain count of bytes, the highest first, or in groups
of seven bits, each byte but the last one marked as followed by another.  The second way takes nine
bytes at most, and the ninth one counts in full.  A number below zero is taken modulo a power of
two.

Both ways are written to lists of bytes (`bytes`, `varint`) and read at a place of a file
(`numberAt`, `varintAt`); behind the end of a file there are zeros.
-/
namespace SampledProfile
namespace Image

/-! ## 1. Writing -/

/-- The last bytes of a number, so many of them, the highest first. -/
def bytes : Nat → Nat → List UInt8
  | 0, _ => []
  | count + 1, n => bytes count (n / 256) ++ [UInt8.ofNat n]

/-- The groups of seven bits of a number, the highest first, each marked as followed by another. -/
def followed (n : Nat) : List UInt8 :=
  if n = 0 then [] else followed (n / 128) ++ [UInt8.ofNat (128 + n % 128)]
termination_by n
decreasing_by omega

/-- So many groups of seven bits, each marked as followed by another. -/
def followedBy : Nat → Nat → List UInt8
  | 0, _ => []
  | count + 1, n => followedBy count (n / 128) ++ [UInt8.ofNat (128 + n % 128)]

/-- A number in groups of seven bits, the last one not marked; with nine bytes the last one has
eight bits. -/
def varint (n : Nat) : List UInt8 :=
  if n < Nat.pow 2 56 then followed (n / 128) ++ [UInt8.ofNat (n % 128)]
  else followedBy 8 (n / 256) ++ [UInt8.ofNat n]

example : varint 127 = [127] ∧ varint 128 = [129, 0] ∧ varint 300 = [130, 44] := by decide +kernel
example : varint (Nat.pow 2 64 - 1) = List.replicate 9 255 := by decide +kernel

/-- An integer of so many bytes, as a number that is not negative. -/
def wrapped (count : Nat) (n : Int) : Nat := (n % Int.pow 2 (8 * count)).toNat

/-! ## 2. Reading -/

/-- The byte at a place. -/
def byteAt (data : ByteArray) (place : Nat) : Nat := (data.data[place]?.map UInt8.toNat).getD 0

/-- The number of so many bytes at a place. -/
def numberAt (data : ByteArray) : Nat → Nat → Nat
  | _, 0 => 0
  | place, count + 1 => 256 * numberAt data place count + byteAt data (place + count)

/-- The integer that a number of so many bytes stands for. -/
def signed (count n : Nat) : Int :=
  if 2 * n < Nat.pow 2 (8 * count) then Int.ofNat n else Int.ofNat n - Int.pow 2 (8 * count)

example : signed 1 127 = 127 ∧ signed 1 128 = -128 ∧ signed 2 65535 = -1 := by decide

/-- The groups of seven bits at a place, put behind other ones, and the place behind them; so many
more may be marked. -/
def groupsAt (data : ByteArray) : Nat → Nat → Nat → Nat × Nat
  | 0, read, place => (256 * read + byteAt data place, place + 1)
  | count + 1, read, place =>
    let byte := byteAt data place
    if byte < 128 then (128 * read + byte, place + 1)
    else groupsAt data count (128 * read + (byte - 128)) (place + 1)

/-- The number in groups of seven bits at a place, and the place behind it. -/
def varintAt (data : ByteArray) (place : Nat) : Nat × Nat := groupsAt data 8 0 place

/-- Is the number a size that pages can have? -/
def isPageSize (size : Nat) : Bool := (List.range 8).any fun i => size = Nat.pow 2 (9 + i)

/-- The bytes of a file from a place on, so many of them. -/
def partAt (data : ByteArray) (place count : Nat) : ByteArray := data.extract place (place + count)

end Image
end SampledProfile
