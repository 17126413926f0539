/-
# Exporting reports

An export writes the rows of a profile's report to a file beside the profile, or into another
folder.  The file is named after the profile; its kind is the suffix.

`Export.run` does it.  A file that is there already is the answer, unless the export is forced; a
forced one removes it before anything else.  So what an export leaves at its path is, step by step:
what was there, nothing, and what `Export.save` writes.
-/
import SampledProfile.Json.Writer
import SampledProfile.Report
import SampledProfile.Store.Basic
import SampledProfile.Workspace

namespace SampledProfile

/-- The kinds of exported files. -/
inductive ExportKind where
  | tables
  | json
  deriving DecidableEq

namespace ExportKind

/-- The name of a kind. -/
def name : ExportKind → String
  | .tables => "sqlite"
  | .json => "json"

/-- The kind of a name. -/
def ofName? (name : Value Number) : Option ExportKind :=
  if name.equals (.str "sqlite") then some .tables
  else if name.equals (.str "json") then some .json
  else none

end ExportKind

/-- An export as it is asked for. -/
structure ExportRequest where
  /-- The path of the profile. -/
  file : Value Number
  /-- The folder to export to, where it is not that of the profile. -/
  folder : Value Number
  kind : Value Number
  force : Value Number
  keepNatives : Value Number
  index : Value Number
  /-- The profiles, where they are not to be read from the file. -/
  profiles : Value Number

namespace Export

/-! ## 1. Where to -/

/-- The suffix of exported files. -/
def suffix (kind : ExportKind) : String := "_export." ++ kind.name

/-- The path of the file that an export writes. -/
def target (file : String) (folder : Option String) (kind : ExportKind) : String :=
  match folder with
  | none => Path.withoutSuffix file ++ suffix kind
  | some folder => Path.join folder (Path.withoutSuffix (Path.lastName file) ++ suffix kind)

/-- A text, where nothing else will do. -/
def requireText : Value Number → Except Fault String
  | .str text => .ok text
  | _ => .error .wrongType

/-- The path of the file that a request asks for. -/
def targetOf (request : ExportRequest) (kind : ExportKind) : Except Fault String := do
  let file ← requireText request.file
  if request.folder.truthy then return target file (some (← requireText request.folder)) kind
  else return target file none kind

/-! ## 2. What -/

/-- The rows of a report. -/
structure Rows where
  nodes : List (Fields Number)
  frames : List (Fields Number)

/-- The rows of a model. -/
def rowsOf (model : Model Number) : Except Fault Rows := do
  return ⟨Report.nodeRows model, ← Report.frameRows model .null .null⟩

/-- Rows as a value. -/
def listOf (rows : List (Fields Number)) : Value Number := .list (rows.map .obj)

/-- A report as a value. -/
def valueOf (rows : Rows) : Value Number :=
  .obj [(Tables.nodesName, listOf rows.nodes), (Tables.framesName, listOf rows.frames)]

/-- A directory with a report as JSON at a path.  A number that cannot be written ends the file. -/
def saveText (directory : Directory) (path : String) (rows : Rows) :
    Directory × Except Fault Unit :=
  let (text, isWhole) := Json.part (valueOf rows)
  match directory.write path (.bytes text.toUTF8) with
  | .error fault => (directory, .error fault)
  | .ok directory => (directory, if isWhole then .ok () else .error .badValue)

/-- A directory with a report at a path. -/
def save (directory : Directory) (path : String) (kind : ExportKind) (rows : Rows) :
    Directory × Except Fault Unit :=
  match kind with
  | .tables => Store.save directory path (listOf rows.nodes) (listOf rows.frames)
  | .json => saveText directory path rows

/-! ## 3. The export -/

/-- What is said when an export starts. -/
def started : String := "exporting data, please wait..."

/-- What is said to a kind that there is not. -/
def unknownKind : String := "error export type!"

/-- What is said when a file is there already. -/
def cached : String :=
  "using cached result, add the '-f' parameter to force re-exporting."

/-- The profile that a request is about. -/
def profileOf (request : ExportRequest) : Task (Value Number) := do
  let profiles ←
    match request.profiles with
    | .null => do pure (.list (← Task.profiles (← Task.take (requireText request.file))))
    | profiles => pure profiles
  Task.take (Catalog.entryAt profiles request.index)

/-- The entry about the rows of an export. -/
def rowsNote (rows : Rows) (path : String) : LogEntry :=
  ⟨.debug, "exporting " ++ toString rows.nodes.length ++ " nodes and " ++
    toString rows.frames.length ++ " frames to " ++ path⟩

/-- Loads the profile of a request and writes its report to a path. -/
def produce (request : ExportRequest) (kind : ExportKind) (path : String) : Task Unit := do
  let model ← Task.load (← profileOf request) request.keepNatives
  let rows ← Task.take (rowsOf model)
  Task.note [rowsNote rows path]
  let (directory, result) := save (← get).directory path kind rows
  Task.replace directory
  Task.take result

/-- Removes the file at a path. -/
def clear (path : String) : Task Unit := do
  Task.replace (← Task.take ((← get).directory.remove path))

/-- Exports, and answers the path of the file; none if there is no such kind. -/
def run (request : ExportRequest) : Task (Option String) := do
  Task.printLine started
  match ExportKind.ofName? request.kind with
  | none =>
    Task.printLine unknownKind
    return none
  | some kind =>
    let path ← Task.take (targetOf request kind)
    let isThere := (← get).directory.isThere path
    if isThere && !request.force.truthy then
      Task.printLine cached
    else
      if isThere then clear path
      produce request kind path
    return some path

end Export
end SampledProfile
