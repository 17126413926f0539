/-
# Directories

A `Directory` is a tree of folders and files, kept as a list of what stands at which place.  A place
is the list of names on the way to it.  A file holds bytes, or tables that were written to it.

Paths are followed name by name (`Directory.place`): everything on the way has to be a folder; an
empty name and `.` stay where they are, and `..` goes back.  A path may lead out of the directory;
of what lies outside, what every system has is known to be there (`Directory.base?`).

The operations are those that a report needs: `isThere`, `read`, `write` and `remove`.  Writing and
removing change one place only; `at?` is the view to say so with.
-/
import SampledProfile.Path
import SampledProfile.Tables.Basic

namespace SampledProfile

/-- The names on the way to something. -/
abbrev Place := List String

/-- What a file holds. -/
inductive Content where
  | bytes (data : ByteArray)
  | tables (tables : Tables)
  deriving DecidableEq

/-- What may stand at a place. -/
inductive Entry where
  | folder
  | file (content : Content)
  deriving DecidableEq

/-- A tree of folders and files. -/
structure Directory where
  entries : List (Place × Entry)

namespace Directory

/-! ## 1. Places -/

/-- A directory with nothing in it. -/
def empty : Directory := ⟨[]⟩

/-- The folders that every system has at its top. -/
def topFolders : List String :=
  ["bin", "dev", "etc", "home", "lib", "proc", "root", "run", "sbin", "sys", "tmp", "usr", "var"]

/-- What stands at a place whatever a directory holds: the folder that all places start from, those
above it, the top of all and its folders, and a file that stays empty. -/
def base? (place : Place) : Option Entry :=
  if place.all (· == "..") then some .folder
  else
    match place with
    | ["/"] => some .folder
    | ["/", name] => if topFolders.contains name then some .folder else none
    | ["/", "dev", "null"] => some (.file (.bytes ByteArray.empty))
    | _ => none

/-- Does the same always stand at the place? -/
def isBase (place : Place) : Bool := (base? place).isSome

/-- What stands at a place. -/
def at? (directory : Directory) (place : Place) : Option Entry :=
  match base? place with
  | some entry => some entry
  | none => directory.entries.lookup place

/-- Where nothing stands always, a directory says what stands there. -/
theorem at?_eq_lookup (directory : Directory) {place : Place} (h : isBase place = false) :
    directory.at? place = directory.entries.lookup place := by
  have hb : base? place = none := by simpa [isBase] using h
  simp [at?, hb]

/-- The place that `..` leads to: back by one name, and further out from where all places start. -/
def back (place : Place) : Place :=
  if place = ["/"] then place
  else if place.all (· == "..") then place ++ [".."]
  else place.dropLast

/-- The place that a name leads to from another one. -/
def enter (place : Place) (name : String) : Place :=
  if name = "" ∨ name = "." then place
  else if name = ".." then back place
  else place ++ [name]

/-- The greatest length of a name, in bytes. -/
def longestName : Nat := 255

/-- The greatest length of a path, in bytes. -/
def longestPath : Nat := 4095

/-- Follows names from a folder.  The last place need not be there. -/
def follow (directory : Directory) : Place → List String → Except Fault Place
  | place, [] => .ok place
  | place, name :: rest =>
    match directory.at? place with
    | none => .error .fileNotFound
    | some (.file _) => .error .notDirectory
    | some .folder =>
      if longestName < name.utf8ByteSize then .error .nameTooLong
      else follow directory (enter place name) rest

/-- The place that a path starts from. -/
def startOf (path : String) : Place := if Path.isAbsolute path then ["/"] else []

/-- All places that names lead to from another one, one after the other. -/
def visited : Place → List String → List Place
  | place, [] => [place]
  | place, name :: rest => place :: visited (enter place name) rest

/-- All places that a path leads through, whatever stands there. -/
def placesOn (path : String) : List Place :=
  (visited (startOf path) (Path.names path)).eraseDups

example : placesOn "/a/./b/../c" = [["/"], ["/", "a"], ["/", "a", "b"], ["/", "a", "c"]] := by
  decide +kernel

/-- Refuses a text that can be no path: one with a character of code zero. -/
def checkPath (path : String) : Except Fault Unit :=
  if path.toList.contains '\x00' then .error .badValue else .ok ()

/-- The place that a path leads to. -/
def place (directory : Directory) (path : String) : Except Fault Place := do
  checkPath path
  if path.isEmpty then throw .fileNotFound
  if longestPath < path.utf8ByteSize then throw .nameTooLong
  directory.follow (startOf path) (Path.names path)

/-- What a path leads to. -/
def find (directory : Directory) (path : String) : Except Fault Entry := do
  match directory.at? (← directory.place path) with
  | some entry => return entry
  | none => throw .fileNotFound

/-- Is there anything at a path? -/
def isThere (directory : Directory) (path : String) : Bool := (directory.find path).toBool

/-! ## 2. Files -/

/-- The content of the file at a path. -/
def read (directory : Directory) (path : String) : Except Fault Content := do
  match ← directory.find path with
  | .folder => throw .isDirectory
  | .file content => return content

/-- The directory with something else at a place. -/
def set (directory : Directory) (place : Place) (entry : Entry) : Directory :=
  ⟨(place, entry) :: directory.entries.filter fun other => other.1 != place⟩

/-- The directory with nothing at a place. -/
def erase (directory : Directory) (place : Place) : Directory :=
  ⟨directory.entries.filter fun other => other.1 != place⟩

theorem lookup_filter_ne {place other : Place} (entries : List (Place × Entry))
    (h : other ≠ place) :
    (entries.filter fun entry => entry.1 != place).lookup other = entries.lookup other := by
  induction entries with
  | nil => rfl
  | cons entry rest ih =>
    obtain ⟨key, value⟩ := entry
    by_cases hk : key = place
    · subst hk
      have hb : (other == key) = false := by simpa using h
      simp [List.lookup_cons, hb, ih]
    · simp [List.lookup_cons, hk, ih]

theorem lookup_filter_self {place : Place} (entries : List (Place × Entry)) :
    (entries.filter fun entry => entry.1 != place).lookup place = none := by
  induction entries with
  | nil => rfl
  | cons entry rest ih =>
    obtain ⟨key, value⟩ := entry
    by_cases hk : key = place
    · simp [hk, ih]
    · have hb : (place == key) = false := by simpa using Ne.symm hk
      simp [List.lookup_cons, hk, hb, ih]

/-- A place holds what was put there. -/
theorem at?_set_self (directory : Directory) {place : Place} (entry : Entry)
    (h : isBase place = false) : (directory.set place entry).at? place = some entry := by
  simp [at?_eq_lookup _ h, set]

/-- Putting something at one place leaves all others as they are. -/
theorem at?_set_of_ne (directory : Directory) {place other : Place} (entry : Entry)
    (h : other ≠ place) : (directory.set place entry).at? other = directory.at? other := by
  have hb : (other == place) = false := by simpa using h
  simp [at?, set, List.lookup_cons, hb, h, lookup_filter_ne]

/-- A place holds nothing once it is cleared. -/
theorem at?_erase_self (directory : Directory) {place : Place} (h : isBase place = false) :
    (directory.erase place).at? place = none := by
  simp [at?_eq_lookup _ h, erase, lookup_filter_self]

/-- Clearing one place leaves all others as they are. -/
theorem at?_erase_of_ne (directory : Directory) {place other : Place} (h : other ≠ place) :
    (directory.erase place).at? other = directory.at? other := by
  simp [at?, erase, h, lookup_filter_ne]

/-- The place of a file that may be written: its folder has to be there. -/
def placeToWrite (directory : Directory) (path : String) : Except Fault Place := do
  let place ← directory.place path
  match directory.at? place with
  | some .folder => throw .isDirectory
  | _ => return place

/-- The directory with a file at a path. -/
def write (directory : Directory) (path : String) (content : Content) : Except Fault Directory := do
  return directory.set (← directory.placeToWrite path) (.file content)

/-- The directory without the file at a path. -/
def remove (directory : Directory) (path : String) : Except Fault Directory := do
  let place ← directory.place path
  match directory.at? place with
  | some (.file _) => return directory.erase place
  | some .folder => throw .isDirectory
  | none => throw .fileNotFound

/-! ## 3. Whole directories -/

/-- All folders on the way to a place, from the top down. -/
def foldersOf (place : Place) : List Place := (List.range place.length).map place.take

/-- Puts something at a place, with all folders on the way. -/
def insert (directory : Directory) (place : Place) (entry : Entry) : Directory :=
  ((foldersOf place).foldl (fun directory folder => directory.set folder .folder) directory).set
    place entry

/-- A directory with some files, or folders where there is no content. -/
def ofFiles (files : List (String × Option Content)) : Directory :=
  files.foldl
    (fun directory file =>
      let place := (Path.names file.1).filter fun name => name != "" && name != "."
      directory.insert place ((file.2.map Entry.file).getD .folder))
    empty

/-- The path of a place. -/
def pathOf : Place → String
  | [] => "."
  | "/" :: place => "/" ++ String.intercalate "/" place
  | place => String.intercalate "/" place

/-- The files of a directory that another one does not hold in the same way. -/
def filesBeside (directory other : Directory) : List (Place × Content) :=
  directory.entries.filterMap fun entry =>
    match entry.2 with
    | .folder => none
    | .file content =>
      if other.at? entry.1 = some (.file content) then none else some (entry.1, content)

/-- What changed from one directory to a later one: files with new content, and removed files. -/
def changes (before after : Directory) : List (String × Option Content) :=
  ((after.filesBeside before).map fun file => (pathOf file.1, some file.2)) ++
    (before.filesBeside after).filterMap fun file =>
      if (after.at? file.1).isSome then none else some (pathOf file.1, none)

end Directory
end SampledProfile
