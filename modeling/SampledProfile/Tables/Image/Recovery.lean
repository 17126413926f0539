/-
# What an earlier writer left

A writer of a file of tables that was interrupted leaves something beside the file, in one of two
ways.

* A journal holds pages as they were before a change.  `Journal.undo` puts them back, and makes the
  file as long as it was.
* A log holds pages as they are after changes, some of which are marked as the last one of a change.
  `Log.redo` puts those in the file that belong to a change that was finished.

Both count only as far as their sums are right.  What is no journal or no log changes nothing.
-/
import SampledProfile.Tables.Image.Bytes

namespace SampledProfile
namespace Image

/-! ## 1. Files of pages -/

/-- A file with a page in it at its place. -/
def putPage (size number : Nat) (file page : ByteArray) : ByteArray :=
  let start := (number - 1) * size
  let gap := ByteArray.mk (Array.replicate (start - file.size) 0)
  partAt file 0 start ++ gap ++ page ++ file.extract (start + size) file.size

/-- A file with some pages put in, where the first one of a number counts.  A page that would leave
a hole in the file even beside all the others is left out. -/
def putPages (size : Nat) (file : ByteArray) (pages : List (Nat × ByteArray)) : ByteArray :=
  let most := file.size / size + 1 + pages.length
  (pages.reverse.filter fun entry => entry.1 ≤ most).foldl
    (fun file entry => putPage size entry.1 file entry.2) file

/-! ## 2. Journals -/

namespace Journal

/-- What a part of a journal begins with. -/
def magic : ByteArray := ByteArray.mk #[0xd9, 0xd5, 0x05, 0xf9, 0x20, 0xa1, 0x63, 0xd7]

/-- The first part of a journal says how it is laid out. -/
structure Layout where
  /-- The parts begin at multiples of this. -/
  sector : Nat
  pageSize : Nat
  /-- How many pages the file had. -/
  pageCount : Nat

/-- The length of the first part before anything is known about it. -/
def leastSector : Nat := 512

/-- The layout of a journal. -/
def layout? (journal : ByteArray) : Option Layout :=
  let sector := numberAt journal 20 4
  let pageSize := numberAt journal 24 4
  let isSound := leastSector ≤ journal.size && (partAt journal 0 8).data = magic.data &&
    isPageSize pageSize && (List.range 12).any fun i => sector = Nat.pow 2 (5 + i)
  if isSound then some ⟨sector, pageSize, numberAt journal 16 4⟩ else none

/-- The sum of a page: every two hundredth byte from its end counts. -/
def sumOf (start : Nat) (page : ByteArray) : Nat :=
  let places := (List.range (page.size / 200)).filter fun i => 200 * (i + 1) < page.size
  let sum := places.foldr (fun i sum => byteAt page (page.size - 200 * (i + 1)) + sum) 0
  (start + sum) % Nat.pow 2 32

/-- So many pages from a place on, as far as they are sound. -/
def pagesAt (layout : Layout) (journal : ByteArray) (start : Nat) :
    Nat → Nat → List (Nat × ByteArray)
  | 0, _ => []
  | count + 1, place =>
    let number := numberAt journal place 4
    let page := partAt journal (place + 4) layout.pageSize
    let next := place + layout.pageSize + 8
    if journal.size < next ∨ number = 0 ∨ sumOf start page ≠ numberAt journal (next - 4) 4 then []
    else (number, page) :: pagesAt layout journal start count next

/-- The pages of all parts from a place on; `fuel` bounds the number of parts. -/
def partsAt (layout : Layout) (journal : ByteArray) : Nat → Nat → List (Nat × ByteArray)
  | 0, _ => []
  | fuel + 1, place =>
    let place := (place + layout.sector - 1) / layout.sector * layout.sector
    let first := place + layout.sector
    let width := layout.pageSize + 8
    if journal.size < first ∨ (partAt journal place 8).data ≠ magic.data then []
    else
      let said := numberAt journal (place + 8) 4
      let count := if said = Nat.pow 2 32 - 1 then (journal.size - first) / width else said
      let pages := pagesAt layout journal (numberAt journal (place + 12) 4)
        (min count (journal.size / width)) first
      if pages.length < count then pages
      else pages ++ partsAt layout journal fuel (first + count * width)

/-- The file as it was before the change that a journal is about. -/
def undo (file journal : ByteArray) : ByteArray :=
  match layout? journal with
  | none => file
  | some layout =>
    let pages := (partsAt layout journal journal.size 0).filter fun entry =>
      entry.1 ≤ layout.pageCount
    putPages layout.pageSize (partAt file 0 (layout.pageCount * layout.pageSize)) pages

end Journal

/-! ## 3. Logs -/

namespace Log

/-- The two sums that are kept over a log. -/
abbrev Sums := Nat × Nat

/-- Takes up numbers of four bytes, two by two; `fuel` bounds their count. -/
def sumsAt (data : ByteArray) (highFirst : Bool) (stop : Nat) : Nat → Nat → Sums → Sums
  | 0, _, sums => sums
  | fuel + 1, place, (a, b) =>
    if stop ≤ place then (a, b)
    else
      let word (place : Nat) : Nat :=
        if highFirst then numberAt data place 4
        else
          byteAt data place + Nat.pow 2 8 * byteAt data (place + 1) +
            Nat.pow 2 16 * byteAt data (place + 2) + Nat.pow 2 24 * byteAt data (place + 3)
      let a := (a + word place + b) % Nat.pow 2 32
      let b := (b + word (place + 4) + a) % Nat.pow 2 32
      sumsAt data highFirst stop fuel (place + 8) (a, b)

/-- The sums over a part of a log, which go on from others. -/
def sumsOver (data : ByteArray) (highFirst : Bool) (place size : Nat) (sums : Sums) : Sums :=
  sumsAt data highFirst (place + size) size place sums

/-- The two numbers of four bytes at a place. -/
def pairAt (data : ByteArray) (place : Nat) : Nat × Nat :=
  (numberAt data place 4, numberAt data (place + 4) 4)

/-- What the first bytes of a log say. -/
structure Layout where
  pageSize : Nat
  highFirst : Bool
  sums : Sums

/-- The layout of a log. -/
def layout? (log : ByteArray) : Option Layout :=
  let magic := numberAt log 0 4
  let pageSize := numberAt log 8 4
  let highFirst := magic % 2 = 1
  let sums := sumsOver log highFirst 0 24 (0, 0)
  let isSound := 32 ≤ log.size && magic / 2 * 2 = 0x377f0682 && isPageSize pageSize &&
    sums = pairAt log 24
  if isSound then some ⟨pageSize, highFirst, sums⟩ else none

/-- A page in a log. -/
structure Frame where
  number : Nat
  page : ByteArray
  /-- The number of pages that the file has then, if a change is finished; otherwise zero. -/
  pageCount : Nat

/-- The frames from a place on, as far as they are sound; `fuel` bounds their number. -/
def framesAt (layout : Layout) (log : ByteArray) : Nat → Nat → Sums → List Frame
  | 0, _, _ => []
  | fuel + 1, place, sums =>
    let next := place + 24 + layout.pageSize
    let sums := sumsOver log layout.highFirst place 8 sums
    let sums := sumsOver log layout.highFirst (place + 24) layout.pageSize sums
    let (number, pageCount) := pairAt log place
    if log.size < next ∨ number = 0 ∨ pairAt log (place + 8) ≠ pairAt log 16 ∨
        sums ≠ pairAt log (place + 16) then []
    else ⟨number, partAt log (place + 24) layout.pageSize, pageCount⟩ ::
      framesAt layout log fuel next sums

/-- The file after all changes in a log that were finished. -/
def redo (file log : ByteArray) : ByteArray :=
  match layout? log with
  | none => file
  | some layout =>
    let frames := framesAt layout log log.size 32 layout.sums
    match (frames.reverse.dropWhile fun frame => frame.pageCount = 0) with
    | [] => file
    | last :: before =>
      let pages := (last :: before).map fun frame => (frame.number, frame.page)
      partAt (putPages layout.pageSize file pages) 0 (last.pageCount * layout.pageSize)

end Log
end Image
end SampledProfile
