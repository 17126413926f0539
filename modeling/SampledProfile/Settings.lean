/-
# Settings

The settings of a session: whether to show more than usual, whether to keep native functions where
nothing else is said, and how the log is set up.  The two flags keep the value they were given;
what counts is whether it is a true one.
-/
import SampledProfile.Log

namespace SampledProfile

/-- The settings of a session. -/
structure Settings where
  verbose : Value Number
  showNatives : Value Number
  log : LogSettings
  logger : Logger
  /-- Is there a file of the log? -/
  logFile : Bool

namespace Settings

/-- The settings at the start. -/
def initial : Settings := ⟨.bool false, .bool false, LogSettings.initial, Logger.fresh, false⟩

/-- Are native functions kept?  A request decides, and without one the settings do. -/
def keepsNatives (settings : Settings) (requested : Value Number) : Bool :=
  if requested.isNull then settings.showNatives.truthy else requested.truthy

/-- Sets the log up, with a requested level unless that is `null`; it is kept in a file if that is
wanted and there is a folder for it. -/
def configureLog (settings : Settings) (requested : Value Number) (hasFolder : Bool) :
    Settings × Except Fault Unit :=
  let (logger, result) := settings.log.apply requested settings.logger
  let kept := settings.log.save && hasFolder
  ({ settings with logger := logger, logFile := settings.logFile || kept }, result)

/-- The entries that the logger lets through. -/
def admitted (settings : Settings) (entries : List LogEntry) : List LogEntry :=
  entries.filter settings.logger.admits

end Settings
end SampledProfile
