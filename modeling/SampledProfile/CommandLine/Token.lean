/-
# Arguments and options

Each argument of the command line is sorted before any is used (`Token.ofText`).  What begins with a
dash is an option if it can be: a short one with whatever is joined to it, directly or by an equals
sign, or a long one, where any beginning of its word will do that fits no other, with a value behind
an equals sign.  Otherwise a negative number and what holds a blank are plain arguments, as is a
single dash.  Behind `--` there are plain arguments only.

One argument may hold several short options.  `Bundle` is what an argument asks for: options with
their values in order, and perhaps a last one whose value is the next argument.
-/
import SampledProfile.CommandLine.Switch
import SampledProfile.Text.Digit

namespace SampledProfile

/-- Why the arguments cannot be used. -/
inductive UsageError where
  /-- Several options begin that way. -/
  | ambiguous
  /-- An option lacks its value. -/
  | valueMissing
  /-- An option has a value and takes none. -/
  | valueUnwanted
  /-- A value is no integer. -/
  | notAnInteger
  /-- There is no such command. -/
  | unknownCommand
  /-- No file is named. -/
  | fileMissing
  /-- Some arguments mean nothing. -/
  | unrecognized
  deriving DecidableEq

/-- What a usage error is called. -/
def UsageError.text : UsageError → String
  | .ambiguous => "ambiguous option"
  | .valueMissing => "expected one argument"
  | .valueUnwanted => "ignored explicit argument"
  | .notAnInteger => "invalid int value"
  | .unknownCommand => "invalid choice of a command"
  | .fileMissing => "the following arguments are required: file_path"
  | .unrecognized => "unrecognized arguments"

/-- An argument, sorted. -/
inductive Token where
  | plain (text : String)
  | separator
  /-- A short option and what is joined to it. -/
  | short (switch : Switch) (joined : Option (List Char))
  /-- A long option and the value behind its equals sign. -/
  | long (switch : Switch) (value : Option String)
  | unknown

namespace Token

/-! ## 1. Sorting -/

/-- Digits of any script. -/
def areDigits (cs : List Char) : Bool := cs.all fun c => (Text.digit? c).isSome

/-- Is the text behind a dash that of a number: digits, or digits with a point before the last
ones?  A line feed at the end does not count. -/
def isNumeral (cs : List Char) : Bool :=
  let cs := if cs.getLast? = some '\n' then cs.dropLast else cs
  let whole := cs.takeWhile (· != '.')
  areDigits whole &&
    match cs.drop whole.length with
    | [] => !whole.isEmpty
    | _ :: fraction => areDigits fraction && !fraction.isEmpty

/-- An argument with a dash in front that is no known option. -/
def ofOther (text : String) (behind : List Char) : Token :=
  if isNumeral behind || behind.contains ' ' then .plain text else .unknown

/-- The options whose long spelling begins in some way; the whole of one is that one alone. -/
def matching (spellings : List Spelling) (word : List Char) : List Spelling :=
  match spellings.find? fun spelling => spelling.long.toList = word with
  | some spelling => [spelling]
  | none => spellings.filter fun spelling => word.isPrefixOf spelling.long.toList

/-- An argument with two dashes in front; `behind` is what follows them. -/
def ofLong (spellings : List Spelling) (text : String) (behind : List Char) :
    Except UsageError Token :=
  let word := behind.takeWhile (· != '=')
  let value := (behind.drop word.length).tail?.map String.ofList
  match matching spellings word with
  | [] => .ok (ofOther text ('-' :: behind))
  | [spelling] => .ok (.long spelling.switch value)
  | _ => .error .ambiguous

/-- What is joined to a letter: nothing, or what follows it, less an equals sign in front. -/
def joinedOf : List Char → Option (List Char)
  | [] => none
  | '=' :: rest => some rest
  | rest => some rest

/-- An argument with one dash in front; `letter` and `rest` are what follows it. -/
def ofShort (spellings : List Spelling) (text : String) (letter : Char) (rest : List Char) :
    Token :=
  match spellings.find? fun spelling => spelling.short = letter with
  | some spelling => .short spelling.switch (joinedOf rest)
  | none => ofOther text (letter :: rest)

/-- Sorts an argument. -/
def ofText (spellings : List Spelling) (text : String) : Except UsageError Token :=
  match text.toList with
  | ['-', '-'] => .ok .separator
  | '-' :: '-' :: behind => ofLong spellings text behind
  | '-' :: letter :: rest => .ok (ofShort spellings text letter rest)
  | _ => .ok (.plain text)

/-- Sorts all arguments. -/
def ofTexts (spellings : List Spelling) : List String → Except UsageError (List Token)
  | [] => .ok []
  | text :: rest => do
    match ← ofText spellings text with
    | .separator => return .separator :: rest.map .plain
    | token => return token :: (← ofTexts spellings rest)

end Token

/-! ## 2. What an argument asks for -/

/-- What an argument asks for. -/
structure Bundle where
  /-- Options in order, with their values. -/
  settings : List (Switch × Option String)
  /-- The option whose value is the next argument. -/
  wanting : Option Switch
  deriving DecidableEq

namespace Bundle

/-- One option with its value. -/
def one (switch : Switch) (value : Option String) : Bundle := ⟨[(switch, value)], none⟩

/-- An option before others. -/
def after (switch : Switch) (bundle : Bundle) : Bundle :=
  { bundle with settings := (switch, none) :: bundle.settings }

/-- An option without a value of its own. -/
def alone (switch : Switch) : Bundle :=
  if switch.takesValue then ⟨[], some switch⟩ else one switch none

/-- A short option and the letters directly behind it: its value, or more short options. -/
def ofLetters (spellings : List Spelling) (switch : Switch) :
    List Char → Except UsageError Bundle
  | [] => .ok (alone switch)
  | c :: rest =>
    if switch.takesValue then .ok (one switch (some (String.ofList (c :: rest))))
    else
      match spellings.find? fun spelling => spelling.short = c with
      | none => .error .valueUnwanted
      | some spelling => (ofLetters spellings spelling.switch rest).map (after switch)

/-- A short option and what is joined to it. -/
def ofShort (spellings : List Spelling) (switch : Switch) :
    Option (List Char) → Except UsageError Bundle
  | none => .ok (alone switch)
  | some [] =>
    if switch.takesValue then .ok (one switch (some "")) else .error .valueUnwanted
  | some letters => ofLetters spellings switch letters

/-- A long option and the value behind its equals sign. -/
def ofLong (switch : Switch) (value : Option String) : Except UsageError Bundle :=
  match switch.takesValue, value with
  | _, none => .ok (alone switch)
  | true, some value => .ok (one switch (some value))
  | false, some _ => .error .valueUnwanted

example : (ofLetters Command.summarize.spellings .keepNatives "vn2".toList).toOption =
    some ⟨[(.keepNatives, none), (.verbose, none), (.top, some "2")], none⟩ := by decide

end Bundle
end SampledProfile
