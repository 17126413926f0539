/-
# What reading a file comes to

A file of profiles can be read, or it is refused, and then the program says why and ends with 1.
There are two more ways for a file to hold no profiles, and they get past that:

* its bytes are no text (`ProfileFile.read_of_binary`);
* it is text, and a whole number in it has too many digits (`ProfileFile.read_of_long`).

There is no other way (`ProfileFile.read_of_chars`).  The program reads the file before it does
anything else that shows, so what comes of the reading is how it ends, if that is a fault
(`Program.run_of_file`).
-/
import SampledProfile.CommandLine.Program
import SampledProfile.Proofs.Effect
import SampledProfile.Proofs.Json.Digits

namespace SampledProfile

open Outcome

namespace ProfileFile

variable {directory : Directory} {path : String} {content : Content}

/-! ## 1. Reading -/

/-- The characters of a file, if it is text: line ends are line feeds. -/
def charsOf? : Content → Option (List Char)
  | .bytes data => (String.fromUTF8? data).map fun text => withLineFeeds text.toList
  | .tables _ => none

/-- What is no text cannot be read, and it is not refused either. -/
theorem read_of_binary (h : directory.find path = .ok (.file content))
    (hchars : charsOf? content = none) : read directory path = .error .undecodable := by
  unfold read
  rw [h]
  cases content with
  | tables tables => rfl
  | bytes data =>
    rw [charsOf?, Option.map_eq_none_iff] at hchars
    dsimp only
    rw [ofBytes, valueOf, hchars]
    rfl

/-- A text is read as its characters say. -/
theorem read_eq_of_chars (h : directory.find path = .ok (.file content)) {cs : List Char}
    (hchars : charsOf? content = some cs) :
    read directory path =
      match Json.read cs with
      | .error refusal => .error (faultOf path cs refusal)
      | .ok value =>
        if (profilesIn value).isEmpty then .error (.malformed (.fileEmpty path))
        else .ok (profilesIn value) := by
  cases content with
  | tables tables => cases hchars
  | bytes data =>
    obtain ⟨text, htext, rfl⟩ := Option.map_eq_some_iff.mp hchars
    unfold read
    rw [h]
    dsimp only
    rw [ofBytes, valueOf, htext]
    dsimp only
    cases Json.read (withLineFeeds text.toList) with
    | error refusal => rfl
    | ok value => rfl

/-- **A text holds profiles, or it is refused, or a whole number in it has too many digits.** -/
theorem read_of_chars (h : directory.find path = .ok (.file content)) {cs : List Char}
    (hchars : charsOf? content = some cs) :
    (∃ profiles, profiles ≠ [] ∧ read directory path = .ok profiles) ∨
      (∃ why, read directory path = .error (.malformed why)) ∨
      (Json.HasLongNumber cs ∧ read directory path = .error .badValue) := by
  rw [read_eq_of_chars h hchars]
  cases hread : Json.read cs with
  | error refusal =>
    cases refusal with
    | «at» problem position => exact .inr (.inl ⟨_, rfl⟩)
    | tooManyDigits => exact .inr (.inr ⟨Json.hasLongNumber_of_read hread, rfl⟩)
  | ok value =>
    dsimp only
    split
    · exact .inr (.inl ⟨_, rfl⟩)
    · rename_i hprofiles
      exact .inl ⟨_, fun hnil => hprofiles (List.isEmpty_iff.mpr hnil), rfl⟩

/-- A text that is one whole number of too many digits is not refused. -/
theorem read_of_long (h : directory.find path = .ok (.file content)) {c : Char} {rest : List Char}
    (hchars : charsOf? content = some (c :: rest)) (hdigits : ∀ d ∈ c :: rest, d.isDigit = true)
    (hc : c ≠ '0') (hlong : Text.mostDigits < (c :: rest).length) :
    read directory path = .error .badValue := by
  rw [read_eq_of_chars h hchars, Json.read_of_long hdigits hc hlong]
  rfl

end ProfileFile

/-! ## 2. The program -/

namespace Program

variable {invocation : Invocation} {pick : Int} {w : Workspace} {level : Value Number}

/-- A log with a default level can be set up. -/
theorem exists_configureLog (settings : Settings) {requested : Value Number}
    (h : Logger.levelOf settings.log.defaultLevel = .ok level)
    (hrequested : requested.isNull = true ∨ ∃ level, Logger.levelOf requested = .ok level) :
    ∃ left, settings.configureLog requested false = (left, .ok ⟨⟩) := by
  unfold Settings.configureLog LogSettings.apply
  rw [h]
  dsimp only
  split
  · exact ⟨_, rfl⟩
  · rename_i hnull
    obtain ⟨own, hown⟩ := hrequested.resolve_left hnull
    rw [hown]
    exact ⟨_, rfl⟩

/-- Setting up changes nothing but the settings. -/
theorem run_setUp (options : Options)
    (h : Logger.levelOf w.settings.log.defaultLevel = .ok level) :
    ∃ settings, Effect.run (setUp options) w = (.ok ⟨⟩, { w with settings }) := by
  have hrequested : ∀ verbose : Bool,
      (if verbose then Value.int LogLevel.debug.weight else .null : Value Number).isNull = true ∨
        ∃ level, Logger.levelOf (if verbose then Value.int LogLevel.debug.weight else .null) =
          .ok level := by
    rintro (_ | _)
    · exact .inl rfl
    · exact .inr ⟨_, rfl⟩
  obtain ⟨settings, hsettings⟩ := exists_configureLog
    { w.settings with
      verbose := .bool options.verbose
      showNatives := .bool options.keepNatives } h (hrequested options.verbose)
  refine ⟨settings, ?_⟩
  unfold setUp Task.configure Task.take
  simp only [Effect.run_bind, Effect.run_modify, Effect.run_get, hsettings, Effect.run_mk]

/-- A file that cannot be read is the end of the work, and nothing has been said by then. -/
theorem run_perform (hlevel : Logger.levelOf w.settings.log.defaultLevel = .ok level)
    {fault : Fault} (h : ProfileFile.read w.directory invocation.file = .error fault) :
    ∃ settings, Effect.run (perform invocation pick) w = (.error fault, { w with settings }) := by
  obtain ⟨settings, hsetUp⟩ := run_setUp invocation.options hlevel
  refine ⟨settings, ?_⟩
  unfold perform Task.profiles Task.take
  simp only [Effect.run_bind, hsetUp, Effect.run_get, Effect.run_mk, h]

/-- How the program ends on a fault: it says why something is refused, and nothing about others. -/
def endOn (fault : Fault) (w : Workspace) : Ending × Workspace :=
  match fault with
  | .malformed why =>
    (.exit 1, { w with transcript.output := w.transcript.output ++ refusal why })
  | fault => (.failed fault, w)

theorem conclude_of_read (hlevel : Logger.levelOf w.settings.log.defaultLevel = .ok level)
    {fault : Fault} (h : ProfileFile.read w.directory invocation.file = .error fault) :
    ∃ settings, conclude invocation pick w = endOn fault { w with settings } := by
  obtain ⟨settings, hrun⟩ : ∃ settings,
      Effect.run (perform invocation pick) w = (.error fault, { w with settings }) :=
    run_perform hlevel h
  refine ⟨settings, ?_⟩
  unfold conclude
  rw [show (perform invocation pick).run w = _ from hrun]
  cases fault <;> rfl

/-- The program concludes what its arguments ask for. -/
theorem run_eq_conclude {arguments : List String}
    (h : Invocation.ofArguments arguments = .ok invocation) :
    run arguments pick w = conclude invocation pick w := by
  cases arguments with
  | nil => cases h
  | cons first rest => simp only [run, List.isEmpty_cons, Bool.false_eq_true, if_false, h]

/-- **What a file of profiles comes to, whatever it holds.**  If it is no text, reading it fails for
that.  If it is text, it holds some profiles, or it is refused, or it has a whole number of too many
digits and reading it fails for that.  On a failure of the reading, the program ends before it has
said anything else: with 1 and the reason if the file is refused, and with the fault as it is
otherwise. -/
theorem run_of_file {directory : Directory} {path : String} {content : Content}
    (hfile : directory.find path = .ok (.file content)) :
    (ProfileFile.charsOf? content = none →
      ProfileFile.read directory path = .error .undecodable) ∧
    (∀ cs, ProfileFile.charsOf? content = some cs →
      (∃ profiles, profiles ≠ [] ∧ ProfileFile.read directory path = .ok profiles) ∨
      (∃ why, ProfileFile.read directory path = .error (.malformed why)) ∨
      (Json.HasLongNumber cs ∧ ProfileFile.read directory path = .error .badValue)) ∧
    ∀ fault, ProfileFile.read directory path = .error fault →
      ∀ (arguments : List String) (invocation : Invocation) (pick : Int) (w : Workspace)
        (level : Value Number), Invocation.ofArguments arguments = .ok invocation →
        invocation.file = path → w.directory = directory →
        Logger.levelOf w.settings.log.defaultLevel = .ok level →
        ∃ settings, run arguments pick w = endOn fault { w with settings } := by
  refine ⟨ProfileFile.read_of_binary hfile, fun cs => ProfileFile.read_of_chars hfile, ?_⟩
  rintro fault hread arguments invocation pick w level harguments rfl rfl hlevel
  rw [run_eq_conclude harguments]
  exact conclude_of_read hlevel hread

/-- A directory with one file, which holds a byte that no text has. -/
def binaryFile : Directory := Directory.ofFiles [("b.json", some (.bytes ⟨#[0xFF]⟩))]

theorem run_of_file_binaryFile :
    ∃ content settings, binaryFile.find "b.json" = .ok (.file content) ∧
      run ["summary", "b.json"] 0 (Workspace.start binaryFile) =
        endOn .undecodable { Workspace.start binaryFile with settings } := by
  have hfile : binaryFile.find "b.json" = .ok (.file (.bytes ⟨#[0xFF]⟩)) := by decide +kernel
  obtain ⟨hbinary, -, hrun⟩ := run_of_file hfile
  have hchars : ProfileFile.charsOf? (.bytes ⟨#[0xFF]⟩) = none := by decide +kernel
  obtain ⟨settings, hends⟩ := hrun _ (hbinary hchars) ["summary", "b.json"]
    ⟨.summarize, "b.json", Options.none⟩ 0 (Workspace.start binaryFile) (.int 20)
    (by decide +kernel) rfl rfl rfl
  exact ⟨_, settings, hfile, hends⟩

/-- A file that is no text is neither read nor refused. -/
theorem run_undecodable_binaryFile :
    (ProfileFile.read binaryFile "b.json").map List.length = .error .undecodable ∧
      (run ["summary", "b.json"] 0 (Workspace.start binaryFile)).1 = .failed .undecodable := by
  decide +kernel

end Program
end SampledProfile
