/-
# Files of profiles

A file of profiles holds JSON as UTF-8 text, with any of the three usual line ends.  It may hold a
list of profiles, an object whose field `profiles` is such a list, or a single profile; a list
without any profile is refused.

* `ProfileFile.ofBytes` reads the profiles from what a file holds;
* `ProfileFile.read` finds the file in a directory first.
-/
import SampledProfile.Directory
import SampledProfile.Json.Reader

namespace SampledProfile
namespace ProfileFile

/-! ## 1. From bytes to values -/

/-- The text with a line feed at the end of every line: a carriage return is one, and a line feed
after it counts no more. -/
def withLineFeeds (cs : List Char) : List Char :=
  (cs.zip ('\n' :: cs)).filterMap fun pair =>
    if pair.1 = '\r' then some '\n'
    else if pair.1 = '\n' ∧ pair.2 = '\r' then none
    else some pair.1

example : withLineFeeds "a\r\nb\rc\n\r\r\n".toList = "a\nb\nc\n\n\n".toList := by decide

/-- Why a file that is no JSON is refused. -/
def faultOf (path : String) (cs : List Char) : Json.Refusal → Fault
  | .at problem position => .malformed (.fileUnreadable path (problem.message cs position))
  | .tooManyDigits => .badValue

/-- The value that a file holds. -/
def valueOf (path : String) (data : ByteArray) : Except Fault (Value Number) :=
  match String.fromUTF8? data with
  | none => .error .undecodable
  | some text =>
    let cs := withLineFeeds text.toList
    match Json.read cs with
    | .ok value => .ok value
    | .error refusal => .error (faultOf path cs refusal)

/-! ## 2. Profiles -/

/-- The profiles in a value. -/
def profilesIn (content : Value Number) : List (Value Number) :=
  match content with
  | .list profiles => profiles
  | .obj fields =>
    match Fields.get? fields "profiles" with
    | some (.list profiles) => profiles
    | _ => [content]
  | _ => [content]

/-- The profiles that a file holds. -/
def ofBytes (path : String) (data : ByteArray) : Except Fault (List (Value Number)) := do
  let profiles := profilesIn (← valueOf path data)
  if profiles.isEmpty then throw (.malformed (.fileEmpty path)) else return profiles

/-- The profiles of the file at a path. -/
def read (directory : Directory) (path : String) : Except Fault (List (Value Number)) :=
  match directory.find path with
  | .error _ => .error (.malformed (.fileMissing path))
  | .ok .folder => .error .isDirectory
  | .ok (.file (.tables _)) => .error .undecodable
  | .ok (.file (.bytes data)) => ofBytes path data

end ProfileFile
end SampledProfile
