/-
# Why an operation fails

A profile is read from data that anyone may have written, so every stage can refuse it.  A
refusal is a CAUSE and not a text:

* `Malformed`: the data is readable but is no acceptable profile.  Each case carries what its
  message needs, and `Malformed.message` is the only place where the wording stands;
* `Fault`: all causes.  Besides `malformed` there are those that a value of the wrong kind
  brings about (`wrongType`, `noSuchMember`, `badValue`, `missingField`), those of arithmetic
  (`overflow`, `zeroDivision`), and those of files and tables.

Only two causes have a text that is part of an answer; `Fault.message?` gives it.  `Fault.text` says
any of them in words.
-/
namespace SampledProfile

/-! ## 1. Refused profiles -/

/-- Why readable data is no acceptable profile. -/
inductive Malformed where
  /-- The profile is not an object. -/
  | notAnObject
  /-- It has neither a head nor a list of nodes. -/
  | neitherHeadNorNodes
  /-- The list of nodes is empty. -/
  | noNodes
  /-- A node has no id. -/
  | nodeWithoutId
  /-- Two nodes have the same id. -/
  | duplicateId (id : String)
  /-- Something refers to a node that is not there. -/
  | unknownId (id referrer : String)
  /-- A node can be linked neither by children nor by its parent. -/
  | linksUnknown (id : String)
  /-- Hits are neither reported nor countable from samples. -/
  | hitsUnknown
  /-- The root has no list of children. -/
  | rootWithoutChildren
  /-- The walk meets a node a second time. -/
  | reachableTwice (id : String)
  /-- The walk misses some nodes. -/
  | unreachable (count : Nat)
  /-- The numbers of samples and of timestamps do not fit together. -/
  | countMismatch (samples timestamps : Nat)
  /-- There is no file of that name. -/
  | fileMissing (path : String)
  /-- The file is not the notation it should be. -/
  | fileUnreadable (path reason : String)
  /-- The file holds no profile. -/
  | fileEmpty (path : String)
  /-- The file holds no profile of that number. -/
  | indexOutOfRange (index : String) (count : Nat)
  deriving DecidableEq

/-- The text shown for a refused profile. -/
def Malformed.message : Malformed → String
  | .notAnObject => "Profile must be a JSON object."
  | .neitherHeadNorNodes => "Profile has neither 'head' nor 'nodes'."
  | .noNodes => "Profile has no nodes."
  | .nodeWithoutId => "Profile node without id."
  | .duplicateId id => "Duplicate node id " ++ id ++ "."
  | .unknownId id referrer => "Unknown node id " ++ id ++ " referenced by " ++ referrer ++ "."
  | .linksUnknown id => "Node " ++ id ++ " has neither children nor parent."
  | .hitsUnknown => "Neither hitCount nor samples are present in profile."
  | .rootWithoutChildren => "Missing children for root"
  | .reachableTwice id =>
    "Node " ++ id ++ " is reachable twice, the node graph is not a tree."
  | .unreachable count => toString count ++ " node(s) are not connected to the root."
  | .countMismatch samples timestamps =>
    "Profile has " ++ toString samples ++ " samples but " ++ toString timestamps ++ " timestamps."
  | .fileMissing path => "Profile file does not exist: " ++ path
  | .fileUnreadable path reason => "Invalid profile file " ++ path ++ ": " ++ reason
  | .fileEmpty path => "No profile found in " ++ path
  | .indexOutOfRange index count =>
    "Profile index " ++ index ++ " out of range, file holds " ++ toString count ++ "."

/-! ## 2. All causes -/

/-- Why an operation gives no result. -/
inductive Fault where
  /-- The data is no acceptable profile. -/
  | malformed (why : Malformed)
  /-- A field that has to be there is absent; the name is given as it is quoted. -/
  | missingField (quoted : String)
  /-- A value of this kind does not take part in this operation. -/
  | wrongType
  /-- A value of this kind has no such member. -/
  | noSuchMember
  /-- The kind is right and the value is not. -/
  | badValue
  /-- A number is too large for the form it has to take. -/
  | overflow
  /-- There is too much of something to hold it. -/
  | outOfMemory
  /-- A number is divided by zero. -/
  | zeroDivision
  /-- A position outside a sequence. -/
  | outOfRange
  /-- A file, or the folder to hold it, does not exist. -/
  | fileNotFound
  /-- A folder stands where a file is needed. -/
  | isDirectory
  /-- A file stands where a folder is needed. -/
  | notDirectory
  /-- The name of a file is too long. -/
  | nameTooLong
  /-- The bytes of a file are not text. -/
  | undecodable
  /-- The table store cannot be opened or changed. -/
  | storeUnavailable
  /-- A file is no table store, or is damaged. -/
  | notStore
  /-- A row does not keep to the rules of its table. -/
  | ruleBroken
  /-- A value of this kind has no place in a table. -/
  | notStorable
  deriving DecidableEq

/-- A cause in words. -/
def Fault.text : Fault → String
  | .malformed why => why.message
  | .missingField quoted => "there is no field " ++ quoted
  | .wrongType => "a value of this kind does not fit"
  | .noSuchMember => "a value of this kind has no such member"
  | .badValue => "a value is not acceptable"
  | .overflow => "a number is too large"
  | .outOfMemory => "there is too much to hold"
  | .zeroDivision => "a number is divided by zero"
  | .outOfRange => "a position is out of range"
  | .fileNotFound => "there is no such file or folder"
  | .isDirectory => "a folder stands where a file is needed"
  | .notDirectory => "a file stands where a folder is needed"
  | .nameTooLong => "the name of a file is too long"
  | .undecodable => "a file is not text"
  | .storeUnavailable => "the tables cannot be opened or changed"
  | .notStore => "a file holds no tables, or is damaged"
  | .ruleBroken => "a row does not keep to the rules of its table"
  | .notStorable => "a value has no place in a table"

/-- The text that belongs to the answer, where there is one. -/
def Fault.message? : Fault → Option String
  | .malformed why => some why.message
  | .missingField quoted => some quoted
  | _ => none

end SampledProfile
