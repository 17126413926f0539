/-
# Table stores

A store is a file of tables in a directory.  It is found in a way of its own (`Store.placeOf`): `..`
takes back the name before it whether that is there or not, slashes at the end do not count, and the
whole path is kept within a length.  A file that is not there is made, without anything in it, as
soon as the store is opened.

Beside the file there may stand what an earlier writer left: a journal, from which a change that was
not finished is taken back, or a log of changes.  Both are cleared up before anything is read
(`Store.settle`).  A change needs a journal of its own meanwhile, and so it fails where there is no
place for one.

`Store.save` adds the rows of a report to a store.  What happened to the directory before it fails
has happened: the file that was made stays, and so does the table of nodes.
-/
import SampledProfile.Directory
import SampledProfile.Store.Address
import SampledProfile.Tables.Image.Reader
import SampledProfile.Tables.Image.Recovery

namespace SampledProfile

/-- A store that has been opened. -/
structure Store where
  /-- The place of the file, where there is one. -/
  place : Option Place
  tables : Tables
  /-- Are changes kept in a log, and not in a journal? -/
  isLogged : Bool
  /-- May the tables be changed? -/
  isOpen : Bool
  /-- Is there room for a journal where one is needed? -/
  hasRoom : Bool

namespace Store

/-! ## 1. Places -/

/-- The length of the path of the folder that all places start from. -/
def homeLength : Nat := 16

/-- The length of the path of a place. -/
def lengthOf (place : Place) : Nat :=
  let names := place.foldr (fun name size => name.utf8ByteSize + 1 + size) 0
  if place.head? = some "/" then names - 2 else homeLength + names

/-- The greatest length of the path of anything on the way to a store. -/
def longestWay : Nat := 511

/-- The greatest length of the path of a store: the name of its journal has to fit as well. -/
def longestPath : Nat := 504

/-- Is the place there, or is at least nothing in the way of it? -/
def isFree (directory : Directory) (place : Place) : Bool :=
  let followed :=
    match place with
    | "/" :: names => directory.follow ["/"] names
    | names => directory.follow [] names
  match followed with
  | .ok _ => true
  | .error fault => fault = .fileNotFound

/-- Goes from a place by names, where `..` takes back the name before it.  Nothing on the way may be
a file, or too long. -/
def resolve (directory : Directory) : Place → List String → Except Fault Place
  | place, [] => .ok place
  | place, name :: rest =>
    let next := Directory.enter place name
    if isFree directory next && lengthOf next ≤ longestWay then resolve directory next rest
    else .error .storeUnavailable

/-- The place of the store at a path. -/
def placeOf (directory : Directory) (path : String) : Except Fault Place := do
  let place ← resolve directory (Directory.startOf path) (Path.names path)
  if lengthOf place ≤ longestPath then return place else throw .storeUnavailable

/-- The place of something beside another place, whose name goes on with a suffix. -/
def beside (place : Place) (suffix : String) : Place :=
  place.dropLast ++ [place.getLastD "" ++ suffix]

/-- What the name of a journal ends with, that of a log, that of what is shared to use the log, and
that of what keeps others away. -/
def journalSuffix : String := "-journal"

def logSuffix : String := "-wal"

def sharedSuffix : String := "-shm"

def lockSuffix : String := ".lock"

/-- Can a file be made or written at a place? -/
def isWritable (directory : Directory) (place : Place) : Bool :=
  (place.getLastD "").utf8ByteSize ≤ Directory.longestName &&
    directory.at? place != some .folder

/-! ## 2. Opening -/

/-- Work on a directory, which may fail and keeps what it did before. -/
abbrev Work := ExceptT Fault (StateM Directory)

/-- Takes a result, or fails as it did. -/
def take {β : Type} (result : Except Fault β) : Work β := ExceptT.mk (pure result)

/-- Clears a place. -/
def clear (place : Place) : Work Unit := modify fun directory => directory.erase place

/-- Makes sure that there is a file at a place, or makes it where that may be done. -/
def makeFile (address : Address) (place : Place) : Work Unit := do
  let directory ← get
  match directory.at? place with
  | some (.file _) => return ()
  | some .folder => throw .storeUnavailable
  | none =>
    if address.access = .create && directory.at? place.dropLast = some .folder then
      set (directory.set place (.file (.bytes ByteArray.empty)))
    else throw .storeUnavailable

/-- The content of the file at a place. -/
def contentOf (place : Place) : Work Content := do
  match (← get).at? place with
  | some (.file content) => return content
  | _ => throw .storeUnavailable

/-- The first byte of a file, where there is one; tables never begin with a zero. -/
def firstByte? : Content → Option UInt8
  | .bytes data => data.data[0]?
  | .tables _ => some 1

/-- Does a file hold nothing? -/
def isEmptyAt (place : Place) : Work Bool := return (firstByte? (← contentOf place)).isNone

/-- Brings a file to what it should be, given what stands beside it. -/
def mend (change : ByteArray → ByteArray → ByteArray) (place : Place) (leftover : Content) :
    Work Unit := do
  match ← contentOf place, leftover with
  | .bytes data, .bytes leftover =>
    let mended := change data leftover
    if mended != data then
      modify fun directory => directory.set place (.file (.bytes mended))
  | _, _ => return ()

/-- Clears up a journal.  One beside an empty file is no longer needed; of one that begins with a
zero the change is finished; otherwise the change is taken back.  Where something beside the file
keeps others away, a journal counts as being in use. -/
def settleJournal (address : Address) (place : Place) : Work Unit := do
  let journal := beside place journalSuffix
  let isEmpty ← isEmptyAt place
  match (← get).at? journal with
  | none => return ()
  | some .folder =>
    if isEmpty || address.locking = .beside then return () else throw .storeUnavailable
  | some (.file content) =>
    match firstByte? content with
    | none => return ()
    | some first =>
      if address.locking = .beside then return ()
      else if isEmpty then
        if address.isOpen then clear journal
      else if first != 0 then
        if !address.isOpen then throw .storeUnavailable
        mend Image.Journal.undo place content
        clear journal

/-- Is there a log that counts at a place? -/
def hasLog (directory : Directory) (place : Place) : Bool :=
  match directory.at? place with
  | none => false
  | some .folder => true
  | some (.file content) => (firstByte? content).isSome

/-- Takes the changes of a log into its file, and clears up what belongs to it. -/
def settleLog (address : Address) (place : Place) : Work Unit := do
  let directory ← get
  let log := beside place logSuffix
  let shared := beside place sharedSuffix
  if address.sharesMemory && isWritable directory log && isWritable directory shared then
    if let some (.file content) := directory.at? log then mend Image.Log.redo place content
    clear log
    clear shared
  else throw .storeUnavailable

/-- Clears up what an earlier writer left beside a file, and says whether there was a log. -/
def settle (address : Address) (place : Place) : Work Bool := do
  settleJournal address place
  let log := beside place logSuffix
  if !hasLog (← get) log then return false
  if ← isEmptyAt place then
    if isWritable (← get) log then clear log else throw .storeUnavailable
    return false
  settleLog address place
  return true

/-- The versions that a writer and a reader of some content have to know. -/
def versionsOf : Content → Except Fault (Nat × Nat)
  | .tables _ => .ok (1, 1)
  | .bytes data => do
    if data.isEmpty then return (1, 1)
    let header ← Image.Header.ofBytes data
    return (header.writing, header.reading)

/-- The tables that some content holds. -/
def tablesOf : Content → Except Fault Tables
  | .tables tables => .ok tables
  | .bytes data => Tables.ofImage data

/-- Opens the store in the file at a place. -/
def openAt (address : Address) (place : Place) : Work Store := do
  makeFile address place
  if address.isFrozen then
    return ⟨some place, ← take (tablesOf (← contentOf place)), false, false, false⟩
  if address.locking = .beside then
    let lock := beside place lockSuffix
    if !isWritable (← get) lock || ((← get).at? lock).isSome then throw .storeUnavailable
  let hadLog ← settle address place
  let content ← contentOf place
  let (writing, reading) ← take (versionsOf content)
  let isLogged := hadLog || reading = 2
  if isLogged then settleLog address place
  let tables ← take (tablesOf content)
  let hasRoom := isLogged || isWritable (← get) (beside place journalSuffix)
  return ⟨some place, tables, isLogged, address.isOpen && writing ≤ 2, hasRoom⟩

/-- Opens the store at a path. -/
def openPath (path : String) : Work Store := do
  take (Directory.checkPath path)
  let address ← take (Address.ofPath path)
  if address.isPrivate then return ⟨none, Tables.empty, false, address.isOpen, true⟩
  openAt address (← take (placeOf (← get) address.path))

/-! ## 3. Writing and reading -/

/-- Keeps what has become of the tables of a store. -/
def keep (store : Store) (draft : Tables.Draft) : Work Unit := do
  let some place := store.place | return ()
  if draft.isBegun && !store.isLogged then clear (beside place journalSuffix)
  if draft.tables != store.tables then
    modify fun directory => directory.set place (.file (.tables draft.tables))

/-- Adds the rows of a report to the store at a path. -/
def add (path : String) (nodes frames : Value Number) : Work Unit := do
  let store ← openPath path
  let (draft, result) := store.tables.write store.isOpen store.hasRoom nodes frames
  store.keep draft
  take result

/-- A directory with the rows of a report in the store at a path. -/
def save (directory : Directory) (path : String) (nodes frames : Value Number) :
    Directory × Except Fault Unit :=
  let (result, directory) := (add path nodes frames).run.run directory
  (directory, result)

/-- The tables of the store at a path. -/
def read (directory : Directory) (path : String) : Except Fault Tables :=
  ((openPath path).run.run directory).1.map Store.tables

/-- The paths of all files that the store at a path may be about. -/
def pathsOf (path : String) : List String :=
  match Address.ofPath path with
  | .error _ => []
  | .ok address =>
    if address.isPrivate then []
    else
      ["", journalSuffix, logSuffix, sharedSuffix, lockSuffix].map fun suffix =>
        address.path ++ suffix

end Store
end SampledProfile
