/-
# The program

`Program.run` is the whole program on some arguments.  It reads what is asked for, sets up the
settings, reads the profiles of the file, finds out which one is meant, and summarizes or exports
it.

It ends well, or with an exit code: 0 after help, 1 without arguments and after a refused profile,
whose message is printed, and 2 after an error of usage.  All other faults end it as they are.
-/
import SampledProfile.CommandLine.Help
import SampledProfile.CommandLine.Invocation
import SampledProfile.Export
import SampledProfile.Summary

namespace SampledProfile

/-- How the program ends. -/
inductive Ending where
  | done
  | exit (code : Nat)
  | misused (error : UsageError)
  | failed (fault : Fault)
  deriving DecidableEq

namespace Ending

/-- The exit code, where the program ends with one. -/
def code? : Ending → Option Nat
  | .done => none
  | .exit code => some code
  | .misused _ => some 2
  | .failed _ => none

end Ending

namespace Program

/-! ## 1. Commands -/

/-- What an option says as a value; no value at all is an empty list. -/
def valueOf {β : Type} (value : β → Value Number) : Setting β → Value Number
  | .absent => .null
  | .empty => .list []
  | .given said => value said

/-- Sets up the settings: all entries go to the log where more is to be shown. -/
def setUp (options : Options) : Task Unit := do
  modify fun w => { w with
    settings.verbose := .bool options.verbose
    settings.showNatives := .bool options.keepNatives }
  let level := if options.verbose then Value.int LogLevel.debug.weight else .null
  Task.configure fun settings => settings.configureLog level false

/-- How many nodes a summary shows; none or zero is the usual number. -/
def countOf (top : Setting Int) : Int :=
  match top with
  | .given count => if count = 0 then Summary.usualCount else count
  | _ => Summary.usualCount

/-- Prints the summary of one profile of a file. -/
def summarize (invocation : Invocation) (profiles : List (Value Number)) (index : Value Number) :
    Task Unit := do
  let model ← Task.load (← Task.take (Catalog.itemAt profiles index)) .null
  Summary.print invocation.file model (countOf invocation.options.top)

/-- The export that is asked for. -/
def requestOf (invocation : Invocation) (profiles : List (Value Number)) (index : Value Number) :
    ExportRequest where
  file := .str invocation.file
  folder := valueOf .str invocation.options.output
  kind := (valueOf .str invocation.options.kind).orElse (.str ExportKind.tables.name)
  force := .bool invocation.options.force
  keepNatives := .bool invocation.options.keepNatives
  index := index
  profiles := .list profiles

/-- Exports the report of one profile of a file. -/
def exportReport (invocation : Invocation) (profiles : List (Value Number))
    (index : Value Number) : Task Unit := do
  match ← Export.run (requestOf invocation profiles index) with
  | some path => Task.printLine ("export file: " ++ path)
  | none => pure ()

/-- Does what is asked for; `pick` answers where a profile has to be chosen. -/
def perform (invocation : Invocation) (pick : Int) : Task Unit := do
  setUp invocation.options
  let profiles ← Task.profiles invocation.file
  let index ← Task.choose profiles (valueOf Value.int invocation.options.index) pick
  match invocation.command with
  | .summarize => summarize invocation profiles index
  | .exportReport => exportReport invocation profiles index

/-! ## 2. The program -/

/-- The line about a refused profile. -/
def refusal (why : Malformed) : String := Style.red.line ("Error: " ++ why.message)

/-- Prints the text of help. -/
def showHelp (command : Option Command) (w : Workspace) : Workspace :=
  { w with transcript.output := w.transcript.output ++ Help.text command }

/-- Does what is asked for and says how that ends. -/
def conclude (invocation : Invocation) (pick : Int) (w : Workspace) : Ending × Workspace :=
  match (perform invocation pick).run w with
  | (.ok (), w) => (.done, w)
  | (.error (.malformed why), w) =>
    (.exit 1, { w with transcript.output := w.transcript.output ++ refusal why })
  | (.error fault, w) => (.failed fault, w)

/-- The program on some arguments. -/
def run (arguments : List String) (pick : Int) (w : Workspace) : Ending × Workspace :=
  if arguments.isEmpty then (.exit 1, showHelp none w)
  else
    match Invocation.ofArguments arguments with
    | .ok invocation => conclude invocation pick w
    | .error (.help command) => (.exit 0, showHelp command w)
    | .error (.usage error) => (.misused error, w)

end Program
end SampledProfile
