/-
# Values

What is read from a file of profiles is a tree of values: nothing, truth values, numbers, text,
lists, and objects whose fields keep their order.  The kind of number is a parameter.

* `Fields` is the content of an object: names with values, no name twice.  `Fields.get?` and
  `Fields.set` read and write one of them; a new field goes to the end;
* `Value.fields` and `Value.items` look into an object and go through a value; each refuses the
  kinds it does not fit;
* `Value.truthy` says which values count as given: nothing, `false`, zero and whatever is empty
  do not.
-/
import SampledProfile.Numeric.Scalar

namespace SampledProfile

/-- A value over numbers of kind `α`. -/
inductive Value (α : Type) where
  | null
  | bool (value : Bool)
  | num (value : α)
  | str (text : String)
  | list (items : List (Value α))
  | obj (fields : List (String × Value α))

/-- The fields of an object in their order. -/
abbrev Fields (α : Type) := List (String × Value α)

/-! ## 1. Fields -/

namespace Fields

variable {α : Type}

/-- The value of a field. -/
def get? : Fields α → String → Option (Value α)
  | [], _ => none
  | (key, value) :: rest, name => if key = name then some value else get? rest name

/-- The value of a field, `null` where the field is absent. -/
def get (fields : Fields α) (name : String) : Value α := (fields.get? name).getD .null

/-- The value of a field, another one where the field is absent. -/
def getD (fields : Fields α) (name : String) (other : Value α) : Value α :=
  (fields.get? name).getD other

/-- The value of a field that has to be there. -/
def require (fields : Fields α) (name : String) : Except Fault (Value α) :=
  match fields.get? name with
  | some value => .ok value
  | none => .error (.missingField ("'" ++ name ++ "'"))

/-- Gives a field a value, in its place if it is there and at the end otherwise. -/
def set : Fields α → String → Value α → Fields α
  | [], name, value => [(name, value)]
  | (key, old) :: rest, name, value =>
    if key = name then (key, value) :: rest else (key, old) :: set rest name value

@[simp] theorem get?_set_self (fields : Fields α) (name : String) (value : Value α) :
    (fields.set name value).get? name = some value := by
  induction fields with
  | nil => simp [set, get?]
  | cons field rest ih =>
    obtain ⟨key, old⟩ := field
    by_cases h : key = name <;> simp [set, get?, h, ih]

theorem get?_set_of_ne (fields : Fields α) {name other : String} (value : Value α)
    (h : name ≠ other) : (fields.set name value).get? other = fields.get? other := by
  induction fields with
  | nil => simp [set, get?, h]
  | cons field rest ih =>
    obtain ⟨key, old⟩ := field
    by_cases hk : key = name
    · subst hk
      simp [set, get?, h]
    · by_cases ho : key = other
      · subst ho
        simp [set, get?, hk]
      · simp [set, get?, hk, ho, ih]

end Fields

/-! ## 2. Looking into values -/

namespace Value

variable {α : Type}

/-- The fields of an object; no other value has named members. -/
def fields : Value α → Except Fault (Fields α)
  | .obj fields => .ok fields
  | _ => .error .noSuchMember

/-- What one meets when going through a value: the items of a list, the characters of a text, the
names of an object. -/
def items : Value α → Except Fault (List (Value α))
  | .list items => .ok items
  | .str text => .ok (text.toList.map fun c => .str (String.ofList [c]))
  | .obj fields => .ok (fields.map fun field => .str field.1)
  | _ => .error .wrongType

/-- The number of items. -/
def size (v : Value α) : Except Fault Nat := v.items.map List.length

/-- Is there a value at all? -/
def isNull : Value α → Bool
  | .null => true
  | _ => false

/-- The value, if it is not `null`. -/
def given? : Value α → Option (Value α)
  | .null => none
  | v => some v

/-- A value that may be absent. -/
def ofOption : Option (Value α) → Value α
  | some v => v
  | none => .null

variable [Scalar α]

/-- Does the value count as given? -/
def truthy : Value α → Bool
  | .null => false
  | .bool value => value
  | .num value => !Scalar.isZero value
  | .str text => !text.isEmpty
  | .list items => !items.isEmpty
  | .obj fields => !fields.isEmpty

/-- The value if it counts as given, and another one otherwise. -/
def orElse (v other : Value α) : Value α := if v.truthy then v else other

/-- An integer. -/
def int (n : Int) : Value α := .num (Scalar.ofInt n)

/-- A natural number. -/
def nat (n : Nat) : Value α := .num (Scalar.ofInt n)

/-- A number, or a truth value counted as zero or one. -/
def number? : Value α → Option α
  | .num value => some value
  | .bool value => some (Scalar.ofInt (if value then 1 else 0))
  | _ => none

/-- A number, where nothing else will do. -/
def number (v : Value α) : Except Fault α :=
  match v.number? with
  | some x => .ok x
  | none => .error .wrongType

/-- An integer or truth value that can count repetitions or positions. -/
def integer? : Value α → Option Int
  | .num value => Scalar.whole? value
  | .bool value => some (if value then 1 else 0)
  | _ => none

end Value
end SampledProfile
