/-
# Names and what stands under them

Two values are the same name (`Value.SameName`) if both are names at all and have one key.  An
association list of keys is searched from its front.

* `Key.lookup_eq_none_iff`: nothing is found exactly when the key does not occur;
* `Key.lookup_eq_some_iff`: in a list that has no key twice, what is found is what stands there.
-/
import Mathlib.Data.List.Nodup
import SampledProfile.Value.Key

namespace SampledProfile

/-! ## 1. Searching -/

namespace Key

variable {β : Type} {key : Key} {value : β}

theorem mem_of_lookup_eq_some : ∀ {entries : List (Key × β)},
    key.lookup entries = some value → (key, value) ∈ entries
  | [], h => by simp [lookup] at h
  | (other, found) :: rest, h => by
    simp only [lookup] at h
    split at h
    · rename_i heq
      rw [← heq, ← Option.some.inj h]
      exact List.mem_cons_self
    · exact List.mem_cons_of_mem _ (mem_of_lookup_eq_some h)

theorem lookup_eq_none_iff : ∀ {entries : List (Key × β)},
    key.lookup entries = none ↔ key ∉ entries.map Prod.fst
  | [] => by simp [lookup]
  | (other, found) :: rest => by
    simp only [lookup, List.map_cons, List.mem_cons, not_or]
    split
    · rename_i heq
      simp [heq]
    · rename_i hne
      rw [lookup_eq_none_iff]
      exact ⟨fun h => ⟨fun e => hne e.symm, h⟩, fun h => h.2⟩

theorem isSome_lookup_iff {entries : List (Key × β)} :
    (key.lookup entries).isSome = true ↔ key ∈ entries.map Prod.fst := by
  rw [← not_iff_not, ← lookup_eq_none_iff, Bool.not_eq_true, Option.isSome_eq_false_iff,
    Option.isNone_iff_eq_none]

theorem lookup_eq_some_iff {entries : List (Key × β)} (hnd : (entries.map Prod.fst).Nodup) :
    key.lookup entries = some value ↔ (key, value) ∈ entries := by
  refine ⟨mem_of_lookup_eq_some, fun hmem => ?_⟩
  obtain ⟨found, hfound⟩ : ∃ found, key.lookup entries = some found :=
    Option.isSome_iff_exists.mp
      (isSome_lookup_iff.mpr (List.mem_map.mpr ⟨_, hmem, rfl⟩))
  have hpair : (key, found) = (key, value) :=
    List.inj_on_of_nodup_map hnd (mem_of_lookup_eq_some hfound) hmem rfl
  rw [hfound, (Prod.mk.inj hpair).2]

end Key

/-! ## 2. Equal names -/

namespace Value

variable {α : Type}

theorem eq_null_of_isNull {v : Value α} (h : v.isNull = true) : v = .null := by
  cases v <;> simp [isNull] at h ⊢

variable [Scalar α]

/-- Both values are names, and the same one. -/
def SameName (a b : Value α) : Prop := ∃ key, a.key = .ok key ∧ b.key = .ok key

theorem SameName.symm {a b : Value α} (h : a.SameName b) : b.SameName a :=
  h.imp fun _ hkey => ⟨hkey.2, hkey.1⟩

theorem SameName.trans {a b c : Value α} (hab : a.SameName b) (hbc : b.SameName c) :
    a.SameName c := by
  obtain ⟨key, ha, hb⟩ := hab
  obtain ⟨other, hb', hc⟩ := hbc
  rw [hb] at hb'
  cases hb'
  exact ⟨key, ha, hc⟩

instance (a b : Value α) : Decidable (a.SameName b) :=
  match ha : a.key, hb : b.key with
  | .ok key, .ok other =>
    decidable_of_iff (key = other) <| by
      constructor
      · rintro rfl
        exact ⟨key, ha, hb⟩
      · rintro ⟨common, hca, hcb⟩
        rw [ha] at hca
        rw [hb] at hcb
        cases hca
        cases hcb
        rfl
  | .error _, _ => .isFalse fun ⟨_, hca, _⟩ => by rw [ha] at hca; cases hca
  | .ok _, .error _ => .isFalse fun ⟨_, _, hcb⟩ => by rw [hb] at hcb; cases hcb

/-- What has the key of nothing is nothing. -/
theorem isNull_of_key_eq_null {v : Value α} (h : v.key = .ok .null) : v.isNull = true := by
  cases v <;> simp [key, isNull] at h ⊢

theorem not_sameName_null {v other : Value α} (hv : v.isNull = false)
    (hother : other.isNull = true) : ¬ other.SameName v := by
  rintro ⟨key, hkey, hv'⟩
  rw [eq_null_of_isNull hother] at hkey
  rw [← Except.ok.inj hkey] at hv'
  rw [isNull_of_key_eq_null hv'] at hv
  cases hv

end Value
end SampledProfile
