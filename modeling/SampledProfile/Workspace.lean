/-
# Work in a directory

What the commands do goes on in a `Workspace`: a directory, the settings, and a transcript of what
has been said: the printed text, the entries that the log let through, and the questions that were
asked.  A `Task` is a piece of such work.  It may fail, and what it did before stays done.
-/
import SampledProfile.Catalog
import SampledProfile.ProfileFile
import SampledProfile.Settings
import SampledProfile.Style

namespace SampledProfile

/-- A question to choose one of some options. -/
structure Question where
  title : String
  options : List String
  deriving DecidableEq

/-- What has been said. -/
structure Transcript where
  output : String
  log : List LogEntry
  questions : List Question

/-- Nothing has been said. -/
def Transcript.empty : Transcript := ⟨"", [], []⟩

/-- Where work goes on. -/
structure Workspace where
  directory : Directory
  settings : Settings
  transcript : Transcript

/-- A workspace before any work: the given directory, and the settings of the start. -/
def Workspace.start (directory : Directory) : Workspace :=
  ⟨directory, Settings.initial, Transcript.empty⟩

/-- A piece of work, which may fail and keeps what it did before. -/
abbrev Task := ExceptT Fault (StateM Workspace)

namespace Task

/-- Prints a text. -/
def print (text : String) : Task Unit :=
  modify fun w => { w with transcript.output := w.transcript.output ++ text }

/-- Prints a line. -/
def printLine (text : String) : Task Unit := print (text ++ "\n")

/-- Enters into the log what it lets through. -/
def note (entries : List LogEntry) : Task Unit :=
  modify fun w => { w with transcript.log := w.transcript.log ++ w.settings.admitted entries }

/-- Asks a question. -/
def ask (question : Question) : Task Unit :=
  modify fun w => { w with transcript.questions := w.transcript.questions ++ [question] }

/-- Takes a result, or fails as it did. -/
def take {β : Type} (result : Except Fault β) : Task β := ExceptT.mk (pure result)

/-- Replaces the directory. -/
def replace (directory : Directory) : Task Unit := modify fun w => { w with directory }

/-- Changes the settings by a step that may fail; what it did by then is kept. -/
def configure (step : Settings → Settings × Except Fault Unit) : Task Unit := do
  let (settings, result) := step (← get).settings
  modify fun w => { w with settings }
  take result

/-- The profiles of the file at a path. -/
def profiles (path : String) : Task (List (Value Number)) := do
  take (ProfileFile.read (← get).directory path)

/-- Loads a profile and enters what that notes; whether native functions are kept is requested, or
settled by the settings. -/
def load (profile requested : Value Number) : Task (Model Number) := do
  let result := Model.load profile ((← get).settings.keepsNatives requested)
  note (Model.notes profile result)
  take result

/-- The index of the profile that is meant among those of a file; `pick` answers the question where
there is one. -/
def choose (profiles : List (Value Number)) (index : Value Number) (pick : Int) :
    Task (Value Number) := do
  let choice ← take (Catalog.choose profiles index)
  match choice with
  | .settled _ => pure ()
  | .ask title options => ask ⟨title, options⟩
  take (Catalog.resolve choice pick)

end Task
end SampledProfile
