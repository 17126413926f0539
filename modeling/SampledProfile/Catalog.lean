/-
# The profiles of a file

A file may hold several profiles.  `Catalog.describe` is the line that describes one of them, and
`Catalog.choose` says which one is meant: the one with the requested index, the only one there is,
or the one that is picked from the descriptions (`Choice.ask`).
-/
import SampledProfile.Value.Arithmetic
import SampledProfile.Value.Key
import SampledProfile.Value.Text

namespace SampledProfile

/-- Which profile of a file is meant. -/
inductive Choice (α : Type) where
  /-- The one with this index. -/
  | settled (index : Value α)
  /-- The one that is picked from these options. -/
  | ask (title : String) (options : List String)

namespace Catalog

variable {α : Type} [Scalar α]

/-- The number of entries in a field that may be absent. -/
def countOf (profile : Fields α) (name : String) : Except Fault Nat :=
  ((profile.get name).orElse (.list [])).size

/-- The line that describes the profile with a number. -/
def describe (number : String) (profile : Value α) : Except Fault String := do
  let fields ← profile.fields
  let format ←
    if (fields.get "head").truthy then pure "legacy"
    else do pure (toString (← countOf fields "nodes") ++ " nodes")
  let samples ← countOf fields "samples"
  let title := (fields.get "title").orElse (.str ("profile " ++ number))
  return title.text ++ " (" ++ format ++ ", " ++ toString samples ++ " samples)"

/-- The lines that describe some profiles. -/
def describeAll (profiles : List (Value α)) : Except Fault (List String) :=
  profiles.zipIdx.mapM fun entry => describe (toString entry.2) entry.1

/-- The title under which a profile is picked. -/
def pickTitle : String := "Please choose profile: "

/-- Which of some profiles is meant, if an index was requested or not. -/
def choose (profiles : List (Value α)) (index : Value α) : Except Fault (Choice α) :=
  if index.isNull then
    match profiles with
    | [_] => .ok (.settled (.int 0))
    | profiles => do return .ask pickTitle (← describeAll profiles)
  else do
    let x ← index.number
    if Scalar.ge x (Scalar.ofInt 0) && Scalar.lt x (Scalar.ofInt profiles.length) then
      return .settled index
    else throw (.malformed (.indexOutOfRange index.text profiles.length))

/-- Which of the profiles in a value is meant; it has to be one with items. -/
def chooseFrom (profiles index : Value α) : Except Fault (Choice α) := do
  choose (← profiles.items) index

/-- The place in a list of an index, where a negative one counts from the end. -/
def placeOf (count : Nat) (index : Int) : Except Fault Nat :=
  let place := if index < 0 then index + count else index
  if 0 ≤ place ∧ place < count then .ok place.toNat else .error .outOfRange

/-- The item of a list at an index, where a negative one counts from the end. -/
def itemAt (items : List (Value α)) (index : Value α) : Except Fault (Value α) :=
  match index.integer? with
  | some index => (placeOf items.length index).map fun place => items.getD place .null
  | none => .error .wrongType

/-- What a value holds at an index, or under a name. -/
def entryAt (v index : Value α) : Except Fault (Value α) :=
  match v with
  | .list items => itemAt items index
  | .str _ => do itemAt (← v.items) index
  | .obj fields => do
    let _ ← index.key
    let found := match index with
      | .str name => Fields.get? fields name
      | _ => none
    match found with
    | some entry => return entry
    | none => throw (.missingField index.shown)
  | _ => .error .wrongType

/-- The index that answers a choice, if asking for one of the options gives `picked`. -/
def resolve (choice : Choice α) (picked : Int) : Except Fault (Value α) :=
  match choice with
  | .settled index => .ok index
  | .ask _ options => (placeOf options.length picked).map fun _ => .int picked

end Catalog
end SampledProfile
