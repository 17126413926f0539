/-
# The command line

`main` runs `Program.run` on the files of the disk.  It looks up what stands at the places that the
arguments name, runs the program on that directory, prints what was said, and then writes and
removes the files that differ.  The program has no effects of its own, so where it asks which
profile is meant, it is run again with the answer.
-/
import SampledProfile.CommandLine.Program
import SampledProfile.Tables.Image.Writer

namespace SampledProfile
namespace Terminal

/-! ## 1. The disk -/

/-- The paths of the files that an invocation is about: the profile, and what may be exported. -/
def pathsOf (arguments : List String) : List String :=
  match Invocation.ofArguments arguments with
  | .error _ => []
  | .ok invocation =>
    let folder := invocation.options.output.given?.filter fun folder => !folder.isEmpty
    let target := Export.target invocation.file folder
    [invocation.file, target .tables, target .json] ++ Store.pathsOf (target .tables)

/-- What stands at a place on the disk; what cannot be read counts as absent. -/
def entryAt (place : Place) : IO (Option Entry) := do
  match ← (IO.FS.readBinFile (Directory.pathOf place)).toBaseIO with
  | .ok data => return some (.file (.bytes data))
  | .error (.inappropriateType ..) => return some .folder
  | .error _ => return none

/-- Looks up a place on the disk. -/
def lookUp (directory : Directory) (place : Place) : IO Directory := do
  match ← entryAt place with
  | none => return directory
  | some entry => return directory.set place entry

/-- The part of the disk that some paths lead through. -/
def directoryOf (paths : List String) : IO Directory :=
  (paths.flatMap Directory.placesOn).eraseDups.foldlM lookUp Directory.empty

/-- The bytes of a file. -/
def bytesOf : Content → ByteArray
  | .bytes data => data
  | .tables tables => tables.image

/-- Brings a file of the disk to what it should be. -/
def store (change : String × Option Content) : IO Unit :=
  match change.2 with
  | some content => IO.FS.writeBinFile change.1 (bytesOf content)
  | none => IO.FS.removeFile change.1

/-! ## 2. The terminal -/

/-- Asks a question and reads the number of the answer; what is no number counts as the first. -/
def answerTo (question : Question) : IO Int := do
  IO.println question.title
  for (option, number) in question.options.zipIdx do
    IO.println ("  " ++ toString number ++ "  " ++ option)
  let line ← (← IO.getStdin).getLine
  return (Text.integer? line.toList).getD 0

/-- Runs the program, and once more with an answer where it asks which profile is meant. -/
def runAsking (arguments : List String) (w : Workspace) : IO (Ending × Workspace) := do
  let (ending, after) := Program.run arguments 0 w
  match after.transcript.questions with
  | [] => return (ending, after)
  | question :: _ => return Program.run arguments (← answerTo question) w

/-- Says why the program ends, where that is not printed yet, and gives the exit code. -/
def conclude : Ending → IO UInt32
  | .done => return 0
  | .exit code => return UInt32.ofNat code
  | .misused error => do
    IO.eprintln ("cpuprofile: error: " ++ error.text)
    return 2
  | .failed fault => do
    IO.eprintln ("cpuprofile: error: " ++ fault.text)
    return 1

/-- Runs the program on the disk, and gives the exit code. -/
def run (arguments : List String) : IO UInt32 := do
  let before ← directoryOf (pathsOf arguments)
  let (ending, after) ← runAsking arguments (Workspace.start before)
  IO.print after.transcript.output
  for entry in after.transcript.log do
    IO.eprintln (entry.level.name ++ ": " ++ entry.message)
  for change in Directory.changes before after.directory do
    store change
  conclude ending

end Terminal
end SampledProfile

/-- Runs the command line. -/
def main (arguments : List String) : IO UInt32 := SampledProfile.Terminal.run arguments
