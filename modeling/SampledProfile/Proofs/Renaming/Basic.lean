/-
# Renaming nodes

A node is known by its id, and a `Renaming` gives nodes other ids.  It says what becomes of a value
that is a name, and of its key; what it has to satisfy is that different names stay different.

`Renaming.profile` applies it to all of a profile: to the ids and parents of nodes, to the children
that they list or that are nested in them, and to the samples.  `Renaming.ofInjective` is the
renaming that takes every integer to another one.

For every operation that works on names there is a lemma here that says what it does with new ones:
`key_value`, `lookup_map`, `get_fields`, `set_fields`.  What follows uses these alone.
-/
import Mathlib.Data.Rat.Defs
import SampledProfile.Numeric.Number
import SampledProfile.Proofs.Names
import SampledProfile.Proofs.Outcome
import SampledProfile.Recording

namespace SampledProfile

open Outcome

/-! ## 1. Fields -/

/-- A list with each of its items replaced; another value as it is. -/
def Value.mapItems {α : Type} (f : Value α → Value α) : Value α → Value α
  | .list items => .list (items.map f)
  | v => v

theorem Value.items_mapItems {α : Type} {f : Value α → Value α}
    (h : ∀ text, f (.str text) = .str text) (v : Value α) :
    (v.mapItems f).items = v.items.map (List.map f) := by
  cases v with
  | str text => simp [mapItems, items, Except.map, Function.comp_def, h]
  | obj fields => simp [mapItems, items, Except.map, Function.comp_def, h]
  | list xs => rfl
  | null => rfl
  | bool value => rfl
  | num value => rfl

@[simp] theorem Value.truthy_mapItems {α : Type} [Scalar α] (f : Value α → Value α) (v : Value α) :
    (v.mapItems f).truthy = v.truthy := by
  cases v <;> simp [mapItems, truthy]

@[simp] theorem Value.isNull_mapItems {α : Type} (f : Value α → Value α) (v : Value α) :
    (v.mapItems f).isNull = v.isNull := by
  cases v <;> rfl

namespace Fields

variable {α : Type} {g : String → Value α → Value α}

/-- The fields with every value replaced, depending on its name. -/
def mapValues (g : String → Value α → Value α) (fields : Fields α) : Fields α :=
  fields.map fun field => (field.1, g field.1 field.2)

theorem get?_mapValues (fields : Fields α) (name : String) :
    (fields.mapValues g).get? name = (fields.get? name).map (g name) := by
  induction fields with
  | nil => rfl
  | cons field rest ih =>
    obtain ⟨other, value⟩ := field
    by_cases h : other = name
    · subst h
      simp [mapValues, get?]
    · simp only [mapValues, List.map_cons, get?, if_neg h]
      exact ih

theorem get_mapValues (hnull : ∀ name, g name .null = .null) (fields : Fields α) (name : String) :
    (fields.mapValues g).get name = g name (fields.get name) := by
  unfold get
  rw [get?_mapValues]
  cases fields.get? name with
  | none => exact (hnull name).symm
  | some value => rfl

theorem getD_mapValues {fields : Fields α} {name : String} (h : ∀ v, g name v = v)
    (other : Value α) : (fields.mapValues g).getD name other = fields.getD name other := by
  unfold getD
  rw [get?_mapValues]
  cases fields.get? name with
  | none => rfl
  | some value => exact h value

theorem set_mapValues (fields : Fields α) (name : String) (value : Value α) :
    (fields.mapValues g).set name (g name value) = (fields.set name value).mapValues g := by
  induction fields with
  | nil => rfl
  | cons field rest ih =>
    obtain ⟨other, old⟩ := field
    by_cases h : other = name
    · subst h
      simp [mapValues, set]
    · simp only [mapValues, List.map_cons, set, if_neg h, List.cons.injEq, true_and]
      exact ih

theorem image_require (fields : Fields α) (name : String) :
    Image (g name) (fields.require name) ((fields.mapValues g).require name) := by
  unfold require
  rw [get?_mapValues]
  cases fields.get? name with
  | none => exact .error _ _
  | some value => exact .ok value

end Fields

/-! ## 2. Renamings -/

/-- What becomes of values that are names, and of their keys. -/
structure Renaming (α : Type) [Scalar α] where
  name : Value α → Value α
  key : Key → Key
  key_injective : Function.Injective key
  key_name : ∀ {v : Value α} {k : Key}, v.key = .ok k → (name v).key = .ok (key k)
  /-- Equal names stay equal, and others different. -/
  equals_name : ∀ {v other : Value α} {k l : Key}, v.key = .ok k → other.key = .ok l →
    (name v).equals (name other) = v.equals other
  /-- Nothing stays nothing. -/
  key_null : key .null = .null
  /-- A text stays what it is. -/
  name_text : ∀ text, name (.str text) = .str text

namespace Renaming

variable {α : Type} [Scalar α] (r : Renaming α)

mutual

/-- A value in the place of a name, or of a node that may have others nested in it. -/
def value : Value α → Value α
  | .obj node => .obj (fields node)
  | .list items => .list items
  | v => r.name v

/-- The fields of a node. -/
def fields : List (String × Value α) → List (String × Value α)
  | [] => []
  | (name, v) :: rest =>
    (name,
      if name = "id" ∨ name = "parent" then value v
      else if name = "children" then
        match v with
        | .list children => .list (values children)
        | v => v
      else v) :: fields rest

/-- Values in the places of names or nested nodes. -/
def values : List (Value α) → List (Value α)
  | [] => []
  | v :: rest => value v :: values rest

end

/-- A value in the place of a node. -/
def node : Value α → Value α
  | .obj node => .obj (r.fields node)
  | v => v

/-- A value in the place of a list of names. -/
def listed : Value α → Value α := Value.mapItems r.value

/-- The value of a field of a node. -/
def entry (name : String) (v : Value α) : Value α :=
  if name = "id" ∨ name = "parent" then r.value v
  else if name = "children" then r.listed v
  else v

/-- The value of a field of a profile. -/
def part (name : String) (v : Value α) : Value α :=
  if name = "head" then r.node v
  else if name = "nodes" then v.mapItems r.node
  else if name = "samples" then r.listed v
  else v

/-- The profile with new names for its nodes. -/
def profile : Value α → Value α
  | .obj fields => .obj (Fields.mapValues r.part fields)
  | v => v

/-! ## 3. Names -/

theorem values_eq_map (vs : List (Value α)) : r.values vs = vs.map r.value := by
  induction vs with
  | nil => rfl
  | cons v rest ih => rw [values, ih, List.map_cons]

theorem fields_cons (name : String) (v : Value α) (rest : Fields α) :
    r.fields ((name, v) :: rest) = (name, r.entry name v) :: r.fields rest := by
  cases v with
  | list children => rw [fields, values_eq_map]; rfl
  | _ => rfl

theorem fields_eq_mapValues (node : Fields α) : r.fields node = node.mapValues r.entry := by
  induction node with
  | nil => rfl
  | cons field rest ih => exact (r.fields_cons field.1 field.2 rest).trans (congrArg _ ih)

/-- What has a key is no list and no object. -/
theorem value_of_key {v : Value α} {k : Key} (h : v.key = .ok k) : r.value v = r.name v := by
  cases v with
  | list items => cases h
  | obj fields => cases h
  | _ => rfl

theorem key_value (v : Value α) : (r.value v).key = v.key.map r.key := by
  cases hkey : v.key with
  | ok k =>
    rw [r.value_of_key hkey, r.key_name hkey]
    rfl
  | error fault =>
    cases v with
    | list items => exact hkey
    | obj fields => exact hkey
    | _ => cases hkey

@[simp] theorem value_text (text : String) : r.value (.str text) = .str text := r.name_text text

@[simp] theorem value_null : r.value .null = .null := by
  refine Value.eq_null_of_isNull (Value.isNull_of_key_eq_null ?_)
  rw [key_value]
  exact congrArg Except.ok r.key_null

@[simp] theorem isNull_value (v : Value α) : (r.value v).isNull = v.isNull := by
  by_cases hnull : v.isNull = true
  · rw [Value.eq_null_of_isNull hnull, value_null]
  · rw [Bool.not_eq_true] at hnull
    rw [hnull, ← Bool.not_eq_true]
    intro hvalue
    have hkey : v.key.map r.key = .ok .null := by
      rw [← key_value, Value.eq_null_of_isNull hvalue]
      rfl
    obtain ⟨k, hk, hnew⟩ := map_eq_ok.mp hkey
    rw [← r.key_null] at hnew
    rw [Value.isNull_of_key_eq_null (r.key_injective hnew ▸ hk)] at hnull
    cases hnull

theorem equals_value {v other : Value α} {k l : Key} (hv : v.key = .ok k)
    (hother : other.key = .ok l) : (r.value v).equals (r.value other) = v.equals other := by
  rw [r.value_of_key hv, r.value_of_key hother, r.equals_name hv hother]

theorem image_key (v : Value α) : Image r.key v.key (r.value v).key :=
  r.key_value v ▸ .map_self r.key v.key

/-- An entry stands under the new key where it stood under the old one. -/
theorem lookup_map {β γ : Type} (g : β → γ) (k : Key) (entries : List (Key × β)) :
    (r.key k).lookup (entries.map fun entry => (r.key entry.1, g entry.2)) =
      (k.lookup entries).map g := by
  induction entries with
  | nil => rfl
  | cons entry rest ih =>
    obtain ⟨other, found⟩ := entry
    by_cases h : other = k
    · subst h
      simp [Key.lookup]
    · have hnew : r.key other ≠ r.key k := fun heq => h (r.key_injective heq)
      simp only [List.map_cons, Key.lookup, if_neg h, if_neg hnew, ih]

/-! ## 4. Fields of nodes -/

@[simp] theorem isNull_listed (v : Value α) : (r.listed v).isNull = v.isNull :=
  Value.isNull_mapItems _ v

theorem items_listed (v : Value α) : (r.listed v).items = v.items.map (List.map r.value) :=
  Value.items_mapItems r.value_text v

theorem orElse_listed (v : Value α) :
    (r.listed v).orElse (.list []) = r.listed (v.orElse (.list [])) := by
  unfold Value.orElse listed
  rw [Value.truthy_mapItems]
  split <;> rfl

theorem entry_null (name : String) : r.entry name .null = .null := by
  unfold entry
  split
  · exact r.value_null
  · split <;> rfl

theorem get_fields (node : Fields α) (name : String) :
    Fields.get (r.fields node) name = r.entry name (node.get name) := by
  rw [fields_eq_mapValues]
  exact Fields.get_mapValues r.entry_null node name

/-- Is a field none that has a name in it? -/
def IsPlain (name : String) : Prop := name ≠ "id" ∧ name ≠ "parent" ∧ name ≠ "children"

instance (name : String) : Decidable (IsPlain name) :=
  inferInstanceAs (Decidable (name ≠ "id" ∧ name ≠ "parent" ∧ name ≠ "children"))

theorem entry_of_isPlain {name : String} (h : IsPlain name) (v : Value α) : r.entry name v = v := by
  rw [entry, if_neg (not_or.mpr ⟨h.1, h.2.1⟩), if_neg h.2.2]

theorem get_fields_of_isPlain (node : Fields α) (name : String) (h : IsPlain name) :
    Fields.get (r.fields node) name = node.get name := by
  rw [get_fields, r.entry_of_isPlain h]

theorem getD_fields_of_isPlain (node : Fields α) (name : String) (h : IsPlain name)
    (other : Value α) :
    Fields.getD (r.fields node) name other = node.getD name other := by
  rw [fields_eq_mapValues]
  exact Fields.getD_mapValues (r.entry_of_isPlain h) other

@[simp] theorem get_id (node : Fields α) :
    Fields.get (r.fields node) "id" = r.value (node.get "id") := by
  rw [get_fields]
  rfl

@[simp] theorem get_children (node : Fields α) :
    Fields.get (r.fields node) "children" = r.listed (node.get "children") := by
  rw [get_fields]
  rfl

theorem get?_parent (node : Fields α) :
    Fields.get? (r.fields node) "parent" = (node.get? "parent").map r.value := by
  rw [fields_eq_mapValues]
  exact Fields.get?_mapValues node "parent"

theorem image_require_id (node : Fields α) :
    Image r.value (node.require "id") (Fields.require (r.fields node) "id") := by
  rw [fields_eq_mapValues]
  exact Fields.image_require (g := r.entry) node "id"

theorem set_fields (node : Fields α) (name : String) (v : Value α) :
    Fields.set (r.fields node) name (r.entry name v) = r.fields (node.set name v) := by
  rw [fields_eq_mapValues, fields_eq_mapValues]
  exact Fields.set_mapValues node name v

theorem set_children (node : Fields α) (ids : List (Value α)) :
    Fields.set (r.fields node) "children" (.list (ids.map r.value)) =
      r.fields (node.set "children" (.list ids)) :=
  r.set_fields node "children" (.list ids)

/-! ## 5. Integers -/

/-- The integer that a name stands for, if it stands for one. -/
def integer? : Key → Option Int
  | .number (.finite q) => if q.den = 1 then some q.num else none
  | _ => none

/-- The name with the integer that it stands for replaced. -/
def renameInteger (f : Int → Int) (v : Value Number) : Value Number :=
  match v.key.toOption.bind integer? with
  | some n => .int (f n)
  | none => v

/-- The key with the integer that it stands for replaced. -/
def renameKey (f : Int → Int) (key : Key) : Key :=
  match integer? key with
  | some n => .number (.finite (f n))
  | none => key

theorem integer?_eq_some_iff {key : Key} {n : Int} :
    integer? key = some n ↔ key = .number (.finite n) := by
  unfold integer?
  split
  · rename_i q
    rw [Option.ite_none_right_eq_some, Option.some.injEq]
    constructor
    · rintro ⟨hden, rfl⟩
      rw [Rat.coe_int_num_of_den_eq_one hden]
    · intro h
      obtain rfl := Magnitude.finite.inj (Key.number.inj h)
      exact ⟨Rat.den_intCast n, Rat.num_intCast n⟩
  · rename_i hother
    exact ⟨nofun, fun h => (hother _ h).elim⟩

theorem renameKey_injective {f : Int → Int} (hf : Function.Injective f) :
    Function.Injective (renameKey f) := by
  have hnew : ∀ {k l : Key} {n : Int}, integer? k = some n → renameKey f k = renameKey f l →
      ∃ m, integer? l = some m ∧ f n = f m := by
    intro k l n hk h
    unfold renameKey at h
    rw [hk] at h
    cases hl : integer? l with
    | some m =>
      rw [hl] at h
      exact ⟨m, rfl, Rat.intCast_inj.mp (Magnitude.finite.inj (Key.number.inj h))⟩
    | none =>
      rw [hl] at h
      rw [integer?_eq_some_iff.mpr h.symm] at hl
      cases hl
  intro k l h
  cases hk : integer? k with
  | some n =>
    obtain ⟨m, hl, heq⟩ := hnew hk h
    rw [integer?_eq_some_iff.mp hk, integer?_eq_some_iff.mp hl, hf heq]
  | none =>
    cases hl : integer? l with
    | some m =>
      obtain ⟨n, hn, -⟩ := hnew hl h.symm
      rw [hk] at hn
      cases hn
    | none => simpa [renameKey, hk, hl] using h

theorem key_renameInteger (f : Int → Int) {v : Value Number} {k : Key} (h : v.key = .ok k) :
    (renameInteger f v).key = .ok (renameKey f k) := by
  unfold renameInteger renameKey
  rw [h]
  change (match integer? k with | some n => Value.int (f n) | none => v).key = _
  cases integer? k with
  | some n => rfl
  | none => exact h

/-- Has a name with the key a value, so that it equals itself? -/
def hasValue : Key → Bool
  | .number m => m.isDefined
  | _ => true

theorem hasValue_renameKey (f : Int → Int) (k : Key) : hasValue (renameKey f k) = hasValue k := by
  unfold renameKey
  cases hk : integer? k with
  | some n =>
    rw [integer?_eq_some_iff.mp hk]
    rfl
  | none => rfl

theorem same_eq (m other : Magnitude) : m.same other = (m.isDefined && decide (m = other)) := by
  cases m <;> simp [Magnitude.same, Magnitude.isDefined]

theorem exact_truth (b : Bool) :
    Scalar.exact (Scalar.ofInt (if b = true then 1 else 0) : Number) =
      .finite (if b = true then 1 else 0) := by
  cases b <;> rfl

/-- Names are equal if their keys are, and have a value. -/
theorem equals_eq {v other : Value Number} {k l : Key} (hv : v.key = .ok k)
    (hother : other.key = .ok l) : v.equals other = (hasValue k && decide (k = l)) := by
  cases v <;> cases other <;> cases hv <;> cases hother <;>
    simp [Value.equals, Value.number?, hasValue, Scalar.same, same_eq, exact_truth]

/-- Takes every integer to another one. -/
def ofInjective (f : Int → Int) (hf : Function.Injective f) : Renaming Number where
  name := renameInteger f
  key := renameKey f
  key_injective := renameKey_injective hf
  key_name := key_renameInteger f
  equals_name hv hother := by
    rw [equals_eq (key_renameInteger f hv) (key_renameInteger f hother), equals_eq hv hother,
      hasValue_renameKey, decide_eq_decide.mpr (renameKey_injective hf).eq_iff]
  key_null := rfl
  name_text _ := rfl

theorem injective_shift (n : Int) : Function.Injective (· + n) :=
  fun a b (h : a + n = b + n) => by omega

/-- Adds a number to every integer. -/
def shift (n : Int) : Renaming Number := ofInjective (· + n) (injective_shift n)

end Renaming
end SampledProfile
