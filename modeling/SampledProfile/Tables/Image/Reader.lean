/-
# Reading a file of tables

`Tables.ofImage` reads the tables from a file in the format of SQLite 3.  The file is a row of pages
of equal size, counted from one.  A table is a tree of pages: its leaves hold the rows in order, and
the pages above name those below them.  The first page holds the table of tables: for each of them
its name, the page at the top of its tree, and its statement.

* `Header.ofBytes` reads what the first bytes say about the file as a whole;
* `Header.contentAt` puts a row together that goes on in other pages;
* `Header.rowsUnder` walks through a tree of pages;
* `Header.tableOf` makes the rows of a tree fit to the columns of a table.
-/
import SampledProfile.Tables.Image.Record

namespace SampledProfile
namespace Image

/-! ## 1. The first bytes -/

/-- What the first bytes of a file say. -/
structure Header where
  /-- How many bytes a page has, and how many of them can be used. -/
  pageSize : Nat
  usable : Nat
  pageCount : Nat
  encoding : Encoding
  /-- The version that a writer and a reader have to know. -/
  writing : Nat
  reading : Nat
  /-- The version of the table of tables. -/
  schema : Nat

namespace Header

/-- What a file of tables begins with. -/
def magic : ByteArray := "SQLite format 3\x00".toUTF8

/-- The size of a page as it is written down: one stands for the greatest one. -/
def pageSizeOf (n : Nat) : Option Nat :=
  let size := if n = 1 then Nat.pow 2 16 else n
  if isPageSize size then some size else none

/-- How texts are written. -/
def encodingOf (n : Nat) : Encoding :=
  match n % 4 with
  | 2 => .units16 false
  | 3 => .units16 true
  | _ => .utf8

/-- The number of pages that a file says it has; the count is of no use if it is older than the
file. -/
def pageCountOf (data : ByteArray) (pageSize : Nat) : Nat :=
  let present := (data.size + pageSize - 1) / pageSize
  let said := numberAt data 28 4
  if said = 0 ∨ numberAt data 24 4 ≠ numberAt data 92 4 then present else said

/-- The header of a file; where there is none, the file is no store. -/
def ofBytes (data : ByteArray) : Except Fault Header := do
  let some pageSize := pageSizeOf (numberAt data 16 2) | throw .notStore
  let header : Header := ⟨pageSize, pageSize - byteAt data 20, pageCountOf data pageSize,
    encodingOf (numberAt data 56 4), byteAt data 18, byteAt data 19, byteAt data 47⟩
  let isSound := (partAt data 0 16).data = magic.data && header.reading ≤ 2 &&
    (partAt data 21 3).data = #[64, 32, 32] && 480 ≤ header.usable &&
    header.pageCount * pageSize < data.size + pageSize
  if isSound then return header else throw .notStore

/-! ## 2. Rows that go on in other pages -/

/-- Where a page begins, if it is there. -/
def start (header : Header) (page : Nat) : Except Fault Nat :=
  if 1 ≤ page ∧ page ≤ header.pageCount then .ok ((page - 1) * header.pageSize)
  else .error .notStore

/-- So many bytes from a row of pages, each of which names the next one; `fuel` bounds their
number. -/
def spilled (header : Header) (data : ByteArray) :
    Nat → Nat → Nat → Except Fault ByteArray
  | 0, _, _ => .ok ByteArray.empty
  | fuel + 1, page, size => do
    if size = 0 then return ByteArray.empty
    let start ← header.start page
    let count := min size (header.usable - 4)
    let rest ← spilled header data fuel (numberAt data start 4) (size - count)
    return partAt data (start + 4) count ++ rest

/-- The bytes of a row of a certain size whose first part stands at a place. -/
def contentAt (header : Header) (data : ByteArray) (place size : Nat) : Except Fault ByteArray := do
  let count := localSize header.usable (mostOfRow header.usable) size
  let first := numberAt data (place + count) 4
  let rest ← header.spilled data size first (size - count)
  return partAt data place count ++ rest

/-! ## 3. Trees of pages -/

/-- A row as it stands in a tree: its number and its bytes. -/
abbrev Entry := Int × ByteArray

/-- The row at a place of a leaf. -/
def entryAt (header : Header) (data : ByteArray) (place : Nat) : Except Fault Entry := do
  let (size, place) := varintAt data place
  let (number, place) := varintAt data place
  return (signed 8 number, ← header.contentAt data place size)

/-- The places that a page lists from a place on, so many of them; they are taken to lie in the
page, whatever it says. -/
def listed (header : Header) (data : ByteArray) (page place count : Nat) :
    Except Fault (List Nat) := do
  let start ← header.start page
  if (header.pageSize - 8) / 6 < count then throw .notStore
  return (List.range count).map fun i =>
    start + numberAt data (place + 2 * i) 2 % header.pageSize

/-- The kind of a page that holds rows. -/
def leafKind : Nat := 13

/-- The kind of a page that names others. -/
def innerKind : Nat := 5

/-- The greatest number of pages on the way to a row. -/
def deepest : Nat := 20

/-- The rows in a page and below it, which is at most so deep. -/
def rowsUnder (header : Header) (data : ByteArray) : Nat → Nat → Except Fault (List Entry)
  | 0, _ => .error .notStore
  | depth + 1, page => do
    let place := (← header.start page) + if page = 1 then 100 else 0
    let kind := byteAt data place
    let count := numberAt data (place + 3) 2
    if kind = leafKind then
      (← header.listed data page (place + 8) count).mapM (header.entryAt data)
    else if kind = innerKind then
      let below := (← header.listed data page (place + 12) count).map (numberAt data · 4)
      let rows ← (below ++ [numberAt data (place + 8) 4]).mapM (rowsUnder header data depth)
      return rows.flatten
    else throw .notStore

/-! ## 4. Tables -/

/-- The cell of a column: that of the number of the row is not written down, and a column that
prefers doubles has its whole ones written as integers. -/
def cellOf (key : Option Nat) (number : Int) (row : Row) (column : Column) (place : Nat) : Cell :=
  if key = some place then .int number
  else
    match column.affinity, row.cell place with
    | .real, .int n => .real (Number.toReal (.int n))
    | _, cell => cell

/-- The table of a statement with the rows of a tree. -/
def tableOf (header : Header) (data : ByteArray) (name statement : String) (top : Nat) :
    Except Fault Table := do
  let some definition := Definition.ofStatement? statement | throw .notStore
  let entries ← header.rowsUnder data deepest top
  let rows := entries.map fun (number, content) =>
    let row := cellsOf header.encoding content
    definition.columns.zipIdx.map fun entry =>
      cellOf definition.key number row entry.1 entry.2
  return ⟨name, statement, definition, rows⟩

/-- The kind of something beside the tables. -/
def kindOf? : String → Option ExtraKind
  | "view" => some .view
  | "index" => some .index
  | "trigger" => some .trigger
  | _ => none

/-- Takes up a row of the table of tables. -/
def takeUp (header : Header) (data : ByteArray) (tables : Tables) : Row → Except Fault Tables
  | [.text "table", .text name, _, .int top, .text statement] => do
    return tables.add (← header.tableOf data name statement top.toNat)
  | [.text kind, .text name, .text owner, _, statement] => do
    let some kind := kindOf? kind | throw .notStore
    let statement := match statement with
      | .text statement => some statement
      | _ => none
    return { tables with extras := tables.extras ++ [⟨kind, name, owner, statement⟩] }
  | _ => .error .notStore

end Header
end Image

namespace Tables

/-- The table with what its indexes allow no two equal rows in. -/
def withIndexes (extras : List Extra) (table : Table) : Table :=
  let unique := extras.filterMap fun extra =>
    if extra.kind = .index && sameName extra.owner table.name then
      extra.statement.bind (Definition.uniqueOfIndex? table.definition)
    else none
  { table with definition.unique := (table.definition.unique ++ unique).eraseDups }

/-- The tables in a file of some bytes. -/
def ofImage (data : ByteArray) : Except Fault Tables := do
  if data.isEmpty then return empty
  let header ← Image.Header.ofBytes data
  let rows ← header.rowsUnder data Image.Header.deepest 1
  if 4 < header.schema then throw .storeUnavailable
  let rows := rows.map fun row => Image.cellsOf header.encoding row.2
  let tables ← rows.foldlM (header.takeUp data) empty
  return { tables with tables := tables.tables.map (withIndexes tables.extras) }

end Tables
end SampledProfile
