/-
# Writing a file of tables

`Tables.image` lays out tables as a file in the format of SQLite 3.  The file is a row of pages of
equal size, counted from one.  A table is a tree of pages: its leaves hold the rows in order, and
the pages above say up to which row each page below them goes.  An index is a tree as well, of
entries in their order, some of which stand in the pages above.  The first page holds the table of
tables: for each of them its name, the page at the top of its tree, and its statement.

* `Book` is the file while pages are added to it.  What does not fit into the page of a row goes on
  in pages of its own (`Book.spill`);
* `Book.addTable` adds the tree of a table, from the leaves up, and `Book.addIndex` that of an
  index.  An index of anything but columns as they stand is left out.
-/
import SampledProfile.Tables.Image.Record

namespace SampledProfile
namespace Image

/-! ## 1. Pages -/

/-- The size of a page. -/
def pageSize : Nat := 4096

/-- The kinds of pages. -/
inductive PageKind where
  | leaf
  /-- A page above others, with the number of the last one below it. -/
  | inner (last : Nat)
  | indexLeaf
  | indexInner (last : Nat)

/-- The number of a kind, and the last page below. -/
def PageKind.mark : PageKind → List UInt8 × List UInt8
  | .leaf => ([13], [])
  | .inner last => ([5], bytes 4 last)
  | .indexLeaf => ([10], [])
  | .indexInner last => ([2], bytes 4 last)

/-- The first bytes of a page with so many cells, which take so many bytes. -/
def pageHeader (kind : PageKind) (count size : Nat) : List UInt8 :=
  let (mark, last) := kind.mark
  mark ++ bytes 2 0 ++ bytes 2 count ++ bytes 2 (pageSize - size) ++ [0] ++ last

/-- Where cells begin that stand one behind the other. -/
def starts : Nat → List (List UInt8) → List Nat
  | _, [] => []
  | start, cell :: rest => start :: starts (start + cell.length) rest

/-- A page whose cells stand at its end, with some bytes in front. -/
def page (front : List UInt8) (kind : PageKind) (cells : List (List UInt8)) : ByteArray :=
  let content := cells.flatten
  let pointers := (starts (pageSize - content.length) cells).flatMap (bytes 2)
  let head := front ++ pageHeader kind cells.length content.length ++ pointers
  let gap := List.replicate (pageSize - head.length - content.length) 0
  ByteArray.mk (head ++ gap ++ content).toArray

/-- A file while pages are added to it. -/
structure Book where
  pages : Array ByteArray

namespace Book

/-- The file with one more page, and the number of that page. -/
def add (book : Book) (page : ByteArray) : Book × Nat :=
  (⟨book.pages.push page⟩, book.pages.size + 1)

/-- Adds pages for what does not fit into the page of a row; each names the next one. -/
def spill (book : Book) (data : List UInt8) : Book :=
  let room := pageSize - 4
  let count := (data.length + room - 1) / room
  (List.range count).foldl
    (fun book i =>
      let next := if i + 1 < count then book.pages.size + 2 else 0
      let part := (data.drop (i * room)).take room
      let gap := List.replicate (room - part.length) 0
      (book.add (ByteArray.mk (bytes 4 next ++ part ++ gap).toArray)).1)
    book

/-- The cell of some data behind a head, with pages for what is more than `most`. -/
def spilledCell (book : Book) (most : Nat) (head data : List UInt8) : Book × List UInt8 :=
  let size := localSize pageSize most data.length
  let cell := varint data.length ++ head ++ data.take size
  if data.length ≤ size then (book, cell)
  else (book.spill (data.drop size), cell ++ bytes 4 (book.pages.size + 1))

/-- The cell of a row with a number. -/
def rowCell (book : Book) (number : Int) (row : Row) : Book × List UInt8 :=
  book.spilledCell (mostOfRow pageSize) (varint (wrapped 8 number)) (record row)

/-- The cells of rows with their numbers. -/
def rowCells (book : Book) (rows : List (Int × Row)) : Book × List (Int × List UInt8) :=
  let (book, cells) := rows.foldl
    (fun (book, cells) (number, row) =>
      let (book, cell) := rowCell book number row
      (book, (number, cell) :: cells))
    (book, [])
  (book, cells.reverse)

/-! ## 2. Trees of rows -/

/-- Shares cells out to pages: `open_` are those of the page being filled, the last one first, and
`size` the bytes that they take with their pointers. -/
def shareOut (open_ : List (Int × List UInt8)) (size : Nat) :
    List (Int × List UInt8) → List (List (Int × List UInt8))
  | [] => [open_.reverse]
  | cell :: rest =>
    let more := cell.2.length + 2
    if size + more ≤ pageSize - 8 then shareOut (cell :: open_) (size + more) rest
    else open_.reverse :: shareOut [cell] more rest

/-- A page of a tree: its number, and that of the last row in it or below. -/
abbrev Branch := Nat × Int

/-- Adds the leaves of a table. -/
def addLeaves (book : Book) (cells : List (Int × List UInt8)) : Book × List Branch :=
  (shareOut [] 0 cells).foldl
    (fun (book, branches) cells =>
      let (book, number) := book.add (page [] .leaf (cells.map Prod.snd))
      (book, branches ++ [(number, (cells.getLast?.map Prod.fst).getD 0)]))
    (book, [])

/-- The largest number of pages directly below another one. -/
def spread : Nat := 200

/-- Items in groups that differ in size by one at most, none larger than `spread`. -/
def groups {β : Type} (items : List β) : List (List β) :=
  let count := (items.length + spread - 1) / spread
  (List.range count).map fun i =>
    let first := i * items.length / count
    (items.drop first).take ((i + 1) * items.length / count - first)

/-- A page above some others, with some bytes in front. -/
def pageAbove (front : List UInt8) (below : List Branch) : ByteArray :=
  let cells := below.dropLast.map fun branch => bytes 4 branch.1 ++ varint (wrapped 8 branch.2)
  page front (.inner (below.getLastD (0, 0)).1) cells

/-- Adds a page above some others. -/
def addAbove (book : Book) (below : List Branch) : Book × Branch :=
  let (book, number) := book.add (pageAbove [] below)
  (book, number, (below.getLastD (0, 0)).2)

/-- Adds pages above others until there are few enough for one page.  Each level has fewer pages
than the one below it, so `fuel` is the number of the first ones. -/
def addLevels : Nat → Book → List Branch → Book × List Branch
  | 0, book, branches => (book, branches)
  | fuel + 1, book, branches =>
    if branches.length ≤ spread then (book, branches)
    else
      let (book, above) := (groups branches).foldl
        (fun (book, above) below =>
          let (book, branch) := book.addAbove below
          (book, above ++ [branch]))
        (book, [])
      addLevels fuel book above

/-- Rows with their numbers.  A column that is the number of the row is not written down. -/
def numberedRows (table : Table) : List (Int × Row) :=
  match table.definition.key with
  | none => table.rows.zipIdx.map fun entry => (Int.ofNat (entry.2 + 1), entry.1)
  | some place =>
    table.rows.map fun row =>
      match row.cell place with
      | .int n => (n, row.set place .null)
      | _ => (0, row)

/-- Adds the tree of a table, and gives the number of the page at its top. -/
def addTable (book : Book) (table : Table) : Book × Nat :=
  let (book, cells) := book.rowCells (numberedRows table)
  let (book, branches) := book.addLeaves cells
  let (book, branches) := addLevels branches.length book branches
  match branches with
  | [top] => (book, top.1)
  | branches => book.add (pageAbove [] branches)

/-! ## 3. Trees of entries -/

/-- An entry of an index as it stands in a page: the page below it that goes before, and its
bytes. -/
structure Entry where
  below : Option Nat
  data : List UInt8

/-- The cell of an entry. -/
def Entry.cell (entry : Entry) : List UInt8 :=
  ((entry.below.map (bytes 4)).getD []) ++ entry.data

/-- Shares entries out to pages, and gives those that stand between two pages: the one that does not
fit any more, or, if it is the last, the one before it. -/
def shareEntries (open_ : List Entry) (size : Nat) :
    List Entry → List (List Entry) × List Entry
  | [] => ([open_.reverse], [])
  | entry :: rest =>
    let more := entry.data.length + 6
    if size + more ≤ pageSize - 12 then shareEntries (entry :: open_) (size + more) rest
    else
      match open_, rest with
      | last :: before, [] => ([before.reverse, [entry]], [last])
      | _, _ =>
        let (pages, between) := shareEntries [] 0 rest
        (open_.reverse :: pages, entry :: between)

/-- Adds pages for entries, and more above them until there is one at the top, whose number is
given; `last` is the page below that goes behind all entries.  Each level has fewer entries than the
one below it, so `fuel` is the number of the first ones. -/
def addEntries : Nat → Book → List Entry → Option Nat → Book × Nat
  | 0, book, _, _ => (book, 0)
  | fuel + 1, book, entries, last =>
    let (pages, between) := shareEntries [] 0 entries
    let lasts := between.map Entry.below ++ [last]
    let (book, numbers) := (pages.zip lasts).foldl
      (fun (book, numbers) (entries, last) =>
        let kind := (last.map PageKind.indexInner).getD .indexLeaf
        let (book, number) := book.add (page [] kind (entries.map Entry.cell))
        (book, numbers ++ [number]))
      (book, [])
    match numbers with
    | [top] => (book, top)
    | numbers =>
      let above := between.zipWith (fun entry number => { entry with below := some number }) numbers
      addEntries fuel book above numbers.getLast?

/-- The order of kinds of cells. -/
def rank : Cell → Nat
  | .null => 0
  | .int _ => 1
  | .real _ => 1
  | .text _ => 2
  | .bytes _ => 3

/-- The number that a cell is. -/
def numberOf : Cell → Number
  | .int n => .int n
  | .real x => .real x
  | _ => .int 0

/-- Does a cell stand before another one? -/
def before (cell other : Cell) : Bool :=
  if rank cell ≠ rank other then rank cell < rank other
  else
    match cell, other with
    | .text a, .text b => a < b
    | .bytes a, .bytes b => decide (a.toList < b.toList)
    | a, b => Scalar.lt (numberOf a) (numberOf b)

/-- Does a row of cells stand before another one, or in the same place? -/
def notBehind : Row → Row → Bool
  | cell :: row, other :: others =>
    if before cell other then true
    else if before other cell then false
    else notBehind row others
  | _, _ => true

/-- Adds the tree of an index of some columns of a table, and gives the number of the page at its
top. -/
def addIndex (book : Book) (table : Table) (places : List Nat) : Book × Nat :=
  let rows := ((numberedRows table).zip table.rows).map fun ((number, _), row) =>
    places.map row.cell ++ [.int number]
  let (book, entries) := (rows.mergeSort notBehind).foldl
    (fun (book, entries) row =>
      let (book, data) := book.spilledCell (mostOfEntry pageSize) [] (record row)
      (book, ⟨none, data⟩ :: entries))
    (book, [])
  addEntries (entries.length + 1) book entries.reverse none

end Book

/-! ## 4. The file -/

/-- The first bytes of a file of so many pages. -/
def fileHeader (count : Nat) : List UInt8 :=
  "SQLite format 3\x00".toUTF8.toList ++ bytes 2 pageSize ++ [1, 1, 0, 64, 32, 32] ++
    ([1, count, 0, 0, 1, 4, 0, 0, 1, 0, 0, 0, 0, 0, 0, 0, 0, 1, 3046000].flatMap (bytes 4))

/-- The name of a kind. -/
def kindName : ExtraKind → String
  | .view => "view"
  | .index => "index"
  | .trigger => "trigger"

/-- The row of something in the table of tables. -/
def entryRow (kind name owner : String) (top : Nat) (statement : Option String) : Row :=
  [.text kind, .text name, .text owner, .int top, (statement.map Cell.text).getD .null]

/-- The indexes that a table brings with it, with their columns. -/
def ownIndexes (table : Table) : List (String × List Nat) :=
  let unique := ((Definition.ofStatement? table.statement).map Definition.unique).getD []
  unique.zipIdx.map fun entry =>
    ("sqlite_autoindex_" ++ table.name ++ "_" ++ toString (entry.2 + 1), entry.1)

/-- The columns of an index of a table. -/
def placesOf? (table : Table) (extra : Extra) : Option (List Nat) :=
  match extra.statement with
  | none => (ownIndexes table).lookup extra.name
  | some statement => Definition.columnsOfIndex? table.definition statement

/-- Adds the tree of something beside the tables, and its row. -/
def addExtra (tables : Tables) (book : Book) (extra : Extra) : Book × Option Row :=
  let row (top : Nat) : Row :=
    entryRow (kindName extra.kind) extra.name extra.owner top extra.statement
  match extra.kind with
  | .index =>
    match tables.find? extra.owner with
    | none => (book, none)
    | some table =>
      match placesOf? table extra with
      | none => (book, none)
      | some places =>
        let (book, top) := book.addIndex table places
        (book, some (row top))
  | _ => (book, some (row 0))

end Image

namespace Tables

/-- Tables as the bytes of a file. -/
def image (tables : Tables) : ByteArray :=
  let (book, rows) := tables.tables.foldl
    (fun (book, rows) table =>
      let (book, top) := Image.Book.addTable book table
      (book, rows ++ [Image.entryRow "table" table.name table.name top (some table.statement)]))
    (⟨#[ByteArray.empty]⟩, [])
  let (book, rows) := tables.extras.foldl
    (fun (book, rows) extra =>
      let (book, row) := Image.addExtra tables book extra
      (book, rows ++ row.toList))
    (book, rows)
  let (book, cells) := book.rowCells
    (rows.zipIdx.map fun entry => (Int.ofNat (entry.2 + 1), entry.1))
  let size := cells.foldr (fun cell size => cell.2.length + 2 + size) 0
  let (book, below) :=
    if size ≤ Image.pageSize - 108 then (book, [])
    else
      let (book, branches) := book.addLeaves cells
      Image.Book.addLevels branches.length book branches
  let front := Image.fileHeader book.pages.size
  let first :=
    if below.isEmpty then Image.page front .leaf (cells.map Prod.snd)
    else Image.Book.pageAbove front below
  (book.pages.setIfInBounds 0 first).foldl ByteArray.append ByteArray.empty

end Tables
end SampledProfile
