/-
# Tables of a report

A report is kept in two tables, one for nodes and one for frames.  Rows are lists of cells in the
order of the columns.  The tables may stand among others, and may have been made by somebody else;
then their rows have to keep to what their definitions say.

`Tables.write` adds the rows of a report.  It goes one table after the other: it makes sure that the
table is there, takes the rows from the report, and adds them all at once.  Where that fails the
tables stay as they were by then: rows of a table are added all or none, but those of the first
table stay although the second one fails.  A `Draft` holds the tables meanwhile.
-/
import SampledProfile.Tables.Definition

namespace SampledProfile

/-! ## 1. Rows -/

/-- The cells of a row in the order of the columns. -/
abbrev Row := List Cell

namespace Row

/-- The values of a row of a report in the order of the columns. -/
def values (columns : List Column) : Value Number → Except Fault (List (Value Number))
  | .obj fields => columns.mapM fun column => Fields.require fields column.name
  | _ => .error .wrongType

/-- The row of some values in the order of the columns. -/
def ofValues (columns : List Column) (values : List (Value Number)) : Except Fault Row := do
  let cells ← values.mapM Cell.ofValue
  return columns.zipWith (fun column cell => column.affinity.store cell) cells

/-- The cell at a place; behind the end there is nothing. -/
def cell (row : Row) (place : Nat) : Cell := row[place]?.getD .null

/-- Do two rows agree in some columns? -/
def agree (places : List Nat) (row other : Row) : Bool :=
  places.all fun place => (row.cell place).same (other.cell place)

end Row

namespace Definition

/-! ## 2. What rows keep to -/

/-- May any row stand in the table? -/
def isFree (definition : Definition) : Bool :=
  definition.key.isNone && definition.unique.isEmpty &&
    !definition.columns.any Column.isRequired

/-- The number of a row behind some others. -/
def nextNumber (place : Nat) (others : List Row) : Int :=
  let numbers := others.filterMap fun row =>
    match row.cell place with
    | .int n => some n
    | _ => none
  (numbers.max?.map (· + 1)).getD 1

/-- The row with its number filled in, where it has one: it has to be an integer that no other row
has. -/
def numbered (definition : Definition) (others : List Row) (row : Row) : Except Fault Row :=
  match definition.key with
  | none => .ok row
  | some place =>
    match row.cell place with
    | .null => .ok (row.set place (.int (nextNumber place others)))
    | .int n =>
      if others.any fun other => other.cell place = .int n then .error .ruleBroken else .ok row
    | _ => .error .ruleBroken

/-- Does a row hold something where it has to, and differ from others where it has to? -/
def keeps (definition : Definition) (others : List Row) (row : Row) : Bool :=
  (definition.columns.zip row).all (fun entry => !entry.1.isRequired || entry.2 != .null) &&
    definition.unique.all fun places => !others.any (row.agree places)

/-- The row as it stands in the table beside others. -/
def accept (definition : Definition) (others : List Row) (row : Row) : Except Fault Row := do
  let row ← definition.numbered others row
  if definition.keeps others row then return row else throw .ruleBroken

/-- Rows in the order of their numbers. -/
def arrange (definition : Definition) (rows : List Row) : List Row :=
  match definition.key with
  | none => rows
  | some place =>
    rows.mergeSort fun row other =>
      match row.cell place, other.cell place with
      | .int n, .int m => n ≤ m
      | _, _ => true

end Definition

/-! ## 3. Tables -/

/-- A table with its rows in order. -/
structure Table where
  name : String
  /-- The statement that makes the table. -/
  statement : String
  definition : Definition
  rows : List Row
  deriving DecidableEq

/-- Are two names the same?  It does not matter how they are written. -/
def sameName (name other : String) : Bool :=
  Definition.capitals name == Definition.capitals other

/-- A new table of some columns. -/
def Table.ofColumns (name : String) (columns : List Column) : Table :=
  ⟨name, Definition.statement name columns, Definition.ofColumns columns, []⟩

/-- What else is known by a name. -/
inductive ExtraKind where
  | view
  | index
  | trigger
  deriving DecidableEq

/-- Something beside the tables: a view of them, an index, or what happens on some occasions. -/
structure Extra where
  kind : ExtraKind
  name : String
  /-- The name of the table that it belongs to. -/
  owner : String
  /-- The statement that makes it; the index that a table brings with it has none. -/
  statement : Option String
  deriving DecidableEq

/-- The tables of a file. -/
structure Tables where
  tables : List Table
  extras : List Extra
  deriving DecidableEq

namespace Tables

/-- A file without tables. -/
def empty : Tables := ⟨[], []⟩

/-- The columns of the table of nodes. -/
def nodeColumns : List Column := [
  ⟨"depth", .integer, false⟩, ⟨"node_id", .integer, false⟩, ⟨"parent_id", .integer, false⟩,
  ⟨"function_name", .text, false⟩, ⟨"url", .text, false⟩, ⟨"line_number", .integer, false⟩,
  ⟨"column_number", .integer, false⟩, ⟨"hit_count", .integer, false⟩, ⟨"self_time", .real, false⟩,
  ⟨"total_time", .real, false⟩]

/-- The columns of the table of frames. -/
def frameColumns : List Column := [
  ⟨"depth", .integer, false⟩, ⟨"node_id", .integer, false⟩, ⟨"function_name", .text, false⟩,
  ⟨"begin_time", .real, false⟩, ⟨"duration", .real, false⟩, ⟨"self_time", .real, false⟩]

/-- The names of the two tables. -/
def nodesName : String := "node_info"

def framesName : String := "frame_info"

/-- The table of a name. -/
def find? (tables : Tables) (name : String) : Option Table :=
  tables.tables.find? fun table => sameName table.name name

/-- What else has a name. -/
def extra? (tables : Tables) (name : String) (kind : ExtraKind) : Option Extra :=
  tables.extras.find? fun extra => extra.kind = kind && sameName extra.name name

/-- The tables with one more behind the others. -/
def add (tables : Tables) (table : Table) : Tables :=
  { tables with tables := tables.tables ++ [table] }

/-- The tables with other rows in those of a name. -/
def replaceRows (tables : Tables) (name : String) (rows : List Row) : Tables :=
  { tables with
    tables := tables.tables.map fun table =>
      if sameName table.name name then { table with rows } else table }

/-! ## 4. Writing -/

/-- Tables while a report is written. -/
structure Draft where
  tables : Tables
  /-- May they be changed? -/
  isOpen : Bool
  /-- Is there room for what changes need meanwhile? -/
  hasRoom : Bool
  /-- Has anything been changed, even if that was taken back? -/
  isBegun : Bool

/-- A piece of writing, which may fail and keeps what it did before. -/
abbrev Writing := ExceptT Fault (StateM Draft)

namespace Writing

/-- Takes a result, or fails as it did. -/
def take {β : Type} (result : Except Fault β) : Writing β := ExceptT.mk (pure result)

/-- Fails where the tables may not be changed. -/
def requireOpen : Writing Unit := do
  if !(← get).isOpen then throw .storeUnavailable

/-- Begins to change something, if there is room for it. -/
def beginChange : Writing Unit := do
  if (← get).hasRoom then modify fun draft => { draft with isBegun := true }
  else throw .storeUnavailable

/-- Makes sure that there is a table of a name, or at least a view. -/
def ensure (name : String) (columns : List Column) : Writing Unit := do
  let tables := (← get).tables
  if (tables.find? name).isSome || (tables.extra? name .view).isSome then return ()
  if (tables.extra? name .index).isSome then throw .storeUnavailable
  requireOpen
  beginChange
  modify fun draft => { draft with tables := draft.tables.add (Table.ofColumns name columns) }

/-- The table of a name, which has to have so many columns. -/
def tableOf (name : String) (width : Nat) : Writing Table := do
  match (← get).tables.find? name with
  | none => throw .storeUnavailable
  | some table =>
    if table.definition.columns.length = width then return table else throw .storeUnavailable

/-- Takes up the rows of some values, the last one first. -/
def collect (table : Table) : List (List (Value Number)) → List Row → Writing (List Row)
  | [], added => return added
  | values :: rest, added => do
    let row ← take (Row.ofValues table.definition.columns values)
    requireOpen
    let row ←
      if table.definition.isFree then pure row
      else take (table.definition.accept (added ++ table.rows) row)
    beginChange
    collect table rest (row :: added)

/-- Adds the rows of a report to the table of a name; the values of all rows are taken before any
row is made. -/
def addRows (name : String) (columns : List Column) (report : Value Number) : Writing Unit := do
  ensure name columns
  let values ← take (do (← report.items).mapM (Row.values columns))
  let table ← tableOf name columns.length
  let added ← collect table values []
  let rows := table.definition.arrange (table.rows ++ added.reverse)
  modify fun draft => { draft with tables := draft.tables.replaceRows name rows }

end Writing

/-- Adds the rows of a report. -/
def writeReport (nodes frames : Value Number) : Writing Unit := do
  Writing.addRows nodesName nodeColumns nodes
  Writing.addRows framesName frameColumns frames

/-- Adds the rows of a report to tables, which may be changed or not, and may have room for it. -/
def write (tables : Tables) (isOpen hasRoom : Bool) (nodes frames : Value Number) :
    Draft × Except Fault Unit :=
  let (result, draft) := (writeReport nodes frames).run.run ⟨tables, isOpen, hasRoom, false⟩
  (draft, result)

end Tables
end SampledProfile
