/-
# Options of the command line

There are two commands.  Each knows some options; an option has a short spelling, a dash and a
letter, and a long one, two dashes and a word.  Some options take a value.
-/
namespace SampledProfile

/-- What the program can be asked to do. -/
inductive Command where
  | summarize
  | exportReport
  deriving DecidableEq

/-- What an option stands for. -/
inductive Switch where
  | help
  | index
  | keepNatives
  | verbose
  | top
  | output
  | kind
  | force
  deriving DecidableEq

/-- Does the option take a value? -/
def Switch.takesValue : Switch → Bool
  | .index | .top | .output | .kind => true
  | .help | .keepNatives | .verbose | .force => false

/-- How an option is spelled. -/
structure Spelling where
  short : Char
  long : String
  switch : Switch
  deriving DecidableEq

namespace Command

/-- The name of a command. -/
def name : Command → String
  | .summarize => "summary"
  | .exportReport => "export"

/-- The command of a name. -/
def ofName? (name : String) : Option Command :=
  if name = "summary" then some .summarize
  else if name = "export" then some .exportReport
  else none

/-- The options in front of a command. -/
def general : List Spelling := [⟨'h', "help", .help⟩]

/-- The options that both commands know. -/
def shared : List Spelling :=
  general ++ [⟨'i', "index", .index⟩, ⟨'k', "keep_natives", .keepNatives⟩,
    ⟨'v', "verbose", .verbose⟩]

/-- The options of a command. -/
def spellings : Command → List Spelling
  | .summarize => shared ++ [⟨'n', "top", .top⟩]
  | .exportReport =>
    shared ++ [⟨'o', "output", .output⟩, ⟨'t', "type", .kind⟩, ⟨'f', "force", .force⟩]

end Command
end SampledProfile
