/-
# Texts of values

A value shown to people is `Value.text`: a text as it is, anything else as `Value.shown`, which
puts text in quotes, separates items by a comma and a blank, and writes `None`, `True`, `False`.

An integer with too many digits cannot be shown (`Scalar.hasText`).  None can be read from a file
either, so this matters for computed ones only; `Value.checkedText` is for those.  Whoever builds a
profile in memory could put such an integer into it all the same.  These profiles are left out:
`Value.text` shows integers of any length.
-/
import SampledProfile.Text.Digit
import SampledProfile.Text.Quoted
import SampledProfile.Value.Basic

namespace SampledProfile

/-- Can the number be shown?  An integer of too many digits cannot. -/
def Scalar.hasText {α : Type} [Scalar α] (x : α) : Bool :=
  match Scalar.whole? x with
  | some n => decide (n.natAbs < Nat.pow 10 Text.mostDigits)
  | none => true

namespace Value

variable {α : Type} [Scalar α]

mutual

/-- The text of a value as it stands inside another one. -/
def shown : Value α → String
  | .null => "None"
  | .bool true => "True"
  | .bool false => "False"
  | .num value => Scalar.text value
  | .str text => Text.quoted text
  | .list items => "[" ++ String.intercalate ", " (shownItems items) ++ "]"
  | .obj fields => "\x7b" ++ String.intercalate ", " (shownFields fields) ++ "\x7d"

/-- The texts of the items of a list. -/
def shownItems : List (Value α) → List String
  | [] => []
  | item :: rest => shown item :: shownItems rest

/-- The texts of the fields of an object. -/
def shownFields : List (String × Value α) → List String
  | [] => []
  | (name, value) :: rest => (Text.quoted name ++ ": " ++ shown value) :: shownFields rest

end

/-- The text of a value on its own. -/
def text : Value α → String
  | .str text => text
  | v => v.shown

/-- The text of a value that may be too long a number. -/
def checkedText (v : Value α) : Except Fault String :=
  match v with
  | .num x => if Scalar.hasText x then .ok v.text else .error .badValue
  | v => .ok v.text

end Value
end SampledProfile
