/-
# Invocations

An `Invocation` is what the command line asks for: a command, a file, and the options that were
given, where the last one of a kind counts.

`Invocation.ofArguments` reads it from the arguments, from left to right.  An option in want of a
value takes the next argument, which has to be a plain one; the first other plain argument is the
file, together with a `--` next to it.  Help is given as soon as it is asked for, and an error ends
the reading; arguments that mean nothing are an error only if nothing else ends it.
-/
import SampledProfile.CommandLine.Token
import SampledProfile.Text.Integer

namespace SampledProfile

/-- Why the reading of arguments ends without an invocation. -/
inductive Stop where
  /-- Help is asked for: with the program, or with a command. -/
  | help (command : Option Command)
  | usage (error : UsageError)
  deriving DecidableEq

/-- What an option with a value says. -/
inductive Setting (β : Type) where
  /-- The option is not there. -/
  | absent
  /-- The option is there with `--` for its value, which stands for no value at all. -/
  | empty
  | given (value : β)
  deriving DecidableEq

/-- The value that is given, if one is. -/
def Setting.given? {β : Type} : Setting β → Option β
  | .given value => some value
  | _ => none

/-- What the options say. -/
structure Options where
  index : Setting Int
  top : Setting Int
  output : Setting String
  kind : Setting String
  keepNatives : Bool
  verbose : Bool
  force : Bool
  deriving DecidableEq

namespace Options

/-- Nothing is said. -/
def none : Options := ⟨.absent, .absent, .absent, .absent, false, false, false⟩

/-- The text that a value says. -/
def text (value : Option String) : Setting String :=
  let text := value.getD ""
  if text = "--" then .empty else .given text

/-- The integer that a value says. -/
def integer (value : Option String) : Except Stop (Setting Int) :=
  match text value with
  | .given text =>
    match Text.integer? text.toList with
    | some n => .ok (.given n)
    | _ => .error (.usage .notAnInteger)
  | .empty => .ok .empty
  | .absent => .ok .absent

/-- Takes an option of a command with its value. -/
def take (command : Command) (options : Options) (switch : Switch) (value : Option String) :
    Except Stop Options :=
  match switch with
  | .help => .error (.help command)
  | .index => do return { options with index := ← integer value }
  | .top => do return { options with top := ← integer value }
  | .output => .ok { options with output := text value }
  | .kind => .ok { options with kind := text value }
  | .keepNatives => .ok { options with keepNatives := true }
  | .verbose => .ok { options with verbose := true }
  | .force => .ok { options with force := true }

/-- Takes some options in order. -/
def takeAll (command : Command) (options : Options) (settings : List (Switch × Option String)) :
    Except Stop Options :=
  settings.foldlM (fun options setting => options.take command setting.1 setting.2) options

end Options

/-! ## 1. Arguments of a command -/

/-- What has been read of the arguments of a command. -/
structure Reading where
  options : Options
  file : Option String
  /-- Was there an argument that means nothing? -/
  stray : Bool
  deriving DecidableEq

namespace Reading

/-- Nothing has been read. -/
def start : Reading := ⟨Options.none, none, false⟩

/-- What an argument with options asks for; a plain argument asks for nothing. -/
def bundleOf (spellings : List Spelling) : Token → Except UsageError (Option Bundle)
  | .short switch joined => (Bundle.ofShort spellings switch joined).map some
  | .long switch value => (Bundle.ofLong switch value).map some
  | _ => .ok none

/-- An error of usage as the end of the reading. -/
def orStop {β : Type} : Except UsageError β → Except Stop β
  | .ok result => .ok result
  | .error error => .error (.usage error)

/-- Takes the options of a bundle, all of whose values are there. -/
def takeBundle (command : Command) (reading : Reading) (bundle : Bundle)
    (wanted : List (Switch × Option String)) : Except Stop Reading := do
  return { reading with options := ← reading.options.takeAll command (bundle.settings ++ wanted) }

/-- Reads the sorted arguments of a command. -/
def read (command : Command) : List Token → Reading → Except Stop Reading
  | [], reading => .ok reading
  | .separator :: .plain text :: rest, reading =>
    if reading.file.isNone then read command rest { reading with file := some text }
    else read command rest { reading with stray := true }
  | .plain text :: .separator :: rest, reading =>
    if reading.file.isNone then read command rest { reading with file := some text }
    else read command rest { reading with stray := true }
  | .plain text :: rest, reading =>
    if reading.file.isNone then read command rest { reading with file := some text }
    else read command rest { reading with stray := true }
  | token :: .plain text :: rest, reading => do
    match ← orStop (bundleOf command.spellings token) with
    | none => read command (.plain text :: rest) { reading with stray := true }
    | some bundle =>
      match bundle.wanting with
      | some switch =>
        read command rest (← takeBundle command reading bundle [(switch, some text)])
      | none => read command (.plain text :: rest) (← takeBundle command reading bundle [])
  | token :: rest, reading => do
    match ← orStop (bundleOf command.spellings token) with
    | none => read command rest { reading with stray := true }
    | some bundle =>
      match bundle.wanting with
      | some _ => throw (.usage .valueMissing)
      | none => read command rest (← takeBundle command reading bundle [])

end Reading

/-! ## 2. Invocations -/

/-- What the command line asks for. -/
structure Invocation where
  command : Command
  file : String
  options : Options
  deriving DecidableEq

namespace Invocation

/-- The invocation of a command with arguments; `stray` says if something in front of the command
means nothing. -/
def ofCommand (command : Command) (texts : List String) (stray : Bool) :
    Except Stop Invocation := do
  let tokens ← Reading.orStop (Token.ofTexts command.spellings texts)
  let reading ← Reading.read command tokens Reading.start
  match reading.file with
  | none => throw (.usage .fileMissing)
  | some file =>
    if stray || reading.stray then throw (.usage .unrecognized)
    else return ⟨command, file, reading.options⟩

/-- Reads what stands in front of the command, and then the command. -/
def fromFront : List String → Bool → Except Stop Invocation
  | [], _ => .error (.usage .unrecognized)
  | text :: rest, stray => do
    match ← Reading.orStop (Token.ofText Command.general text) with
    | .plain text =>
      match Command.ofName? text with
      | some command => ofCommand command rest stray
      | none => throw (.usage .unknownCommand)
    | .separator => throw (.usage .unknownCommand)
    | .unknown => fromFront rest true
    | token =>
      match ← Reading.orStop (Reading.bundleOf Command.general token) with
      | some _ => throw (.help none)
      | none => fromFront rest true

/-- The invocation that the arguments make. -/
def ofArguments (texts : List String) : Except Stop Invocation := fromFront texts false

end Invocation
end SampledProfile
