/-
# The log

Stages note what they do as entries of a level.  A `Logger` lets an entry through unless it is
disabled or the entry's level is below its own; a logger without a level of its own (zero) goes by
that of warnings.

`LogSettings` are the values that decide how a logger is set up, and `LogSettings.apply` sets it
up: the default level first, then a requested one if there is one.  Levels are integers or names.
-/
import SampledProfile.Model
import SampledProfile.Numeric.Number

namespace SampledProfile

/-- The levels of entries. -/
inductive LogLevel where
  | debug
  | warning
  deriving DecidableEq

namespace LogLevel

/-- The name of a level. -/
def name : LogLevel → String
  | .debug => "DEBUG"
  | .warning => "WARNING"

/-- The weight of a level. -/
def weight : LogLevel → Int
  | .debug => 10
  | .warning => 30

/-- The weights of all names of levels. -/
def named : List (String × Int) := [
  ("CRITICAL", 50), ("FATAL", 50), ("ERROR", 40), ("WARN", 30), ("WARNING", 30), ("INFO", 20),
  ("DEBUG", 10), ("NOTSET", 0)]

end LogLevel

/-- An entry of the log. -/
structure LogEntry where
  level : LogLevel
  message : String
  deriving DecidableEq

/-! ## 1. Loggers -/

/-- What lets entries through. -/
structure Logger where
  /-- An integer, or a truth value standing for one; zero is no level. -/
  level : Value Number
  disabled : Bool

namespace Logger

/-- A logger as it is before it is set up. -/
def fresh : Logger := ⟨.int 0, false⟩

/-- The weight below which entries are held back. -/
def threshold (logger : Logger) : Int :=
  let own := logger.level.integer?.getD 0
  if own = 0 then LogLevel.warning.weight else own

/-- Does the logger let an entry through? -/
def admits (logger : Logger) (entry : LogEntry) : Bool :=
  !logger.disabled && decide (logger.threshold ≤ entry.level.weight)

/-- The level that a value stands for: an integer itself, or a name. -/
def levelOf (v : Value Number) : Except Fault (Value Number) :=
  match v with
  | .str name =>
    match LogLevel.named.find? fun entry => entry.1 = name with
    | some (_, weight) => .ok (.int weight)
    | none => .error .badValue
  | v => if v.integer?.isSome then .ok v else .error .wrongType

end Logger

/-! ## 2. Settings -/

/-- The values that decide how a logger is set up. -/
structure LogSettings where
  /-- Is the log to be written at all? -/
  isOpen : Bool
  /-- Is it to be kept in a file? -/
  save : Bool
  defaultLevel : Value Number

/-- The settings before anyone changes them. -/
def LogSettings.initial : LogSettings := ⟨true, false, .int 20⟩

/-- Sets a logger up, with a requested level unless that is `null`.  A level that is none leaves
the logger as it was by then. -/
def LogSettings.apply (settings : LogSettings) (requested : Value Number) (logger : Logger) :
    Logger × Except Fault Unit :=
  match Logger.levelOf settings.defaultLevel with
  | .error fault => (logger, .error fault)
  | .ok level =>
    let logger := { logger with level := level }
    if requested.isNull then ({ logger with disabled := !settings.isOpen }, .ok ())
    else
      match Logger.levelOf requested with
      | .error fault => (logger, .error fault)
      | .ok level => (⟨level, !settings.isOpen⟩, .ok ())

/-! ## 3. What loading notes -/

namespace Model

variable {α : Type} [Scalar α]

/-- The entry that names the format of a profile, where it has one. -/
def formatNotes (profile : Value α) : List LogEntry :=
  match Recording.formatOf profile with
  | .ok format => [⟨.debug, "loading " ++ format.name ++ " profile"⟩]
  | .error _ => []

/-- The entry about repaired samples, if there were any. -/
def repairNotes (repaired : Nat) : List LogEntry :=
  if repaired = 0 then [] else [⟨.warning, Repair.message repaired⟩]

/-- The entries about a loaded model. -/
def loadedNotes (model : Model α) : List LogEntry :=
  match model.samples with
  | none => []
  | some samples =>
    repairNotes model.repaired ++
      [⟨.debug, "profile loaded: " ++ toString model.arena.size ++ " nodes, " ++
        toString samples.length ++ " samples, max depth " ++ toString model.arena.maxDepth⟩]

/-- The entries that loading a profile makes. -/
def notes (profile : Value α) (result : Except Fault (Model α)) : List LogEntry :=
  formatNotes profile ++
    match result with
    | .ok model => model.loadedNotes
    | .error _ => []

end Model
end SampledProfile
