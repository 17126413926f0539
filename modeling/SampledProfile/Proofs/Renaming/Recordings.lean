/-
# Recordings under other names

A recording of a profile that has other names is the recording of the profile, with other names
(`Renaming.image_ofProfile`).  Nested nodes are flattened to nodes that list the new names of their
children (`Renaming.image_flatten`); what the recording says about times is not touched.
-/
import SampledProfile.Proofs.Renaming.Basic

namespace SampledProfile
namespace Renaming

open Outcome Recording

variable {α : Type} [Scalar α] (r : Renaming α)

/-- The recording with new names for its nodes. -/
def recording (recording : Recording α) : Recording α :=
  { recording with
    nodes := recording.nodes.map r.fields
    samples := recording.samples.map (List.map r.value) }

/-! ## 1. Nested nodes -/

/-- What is no object under new names was none before. -/
theorem value_ne_obj {v : Value α} (h : ∀ node, v ≠ .obj node) (node : Fields α) :
    r.value v ≠ .obj node := by
  intro heq
  have hkey := r.key_value v
  rw [heq] at hkey
  cases v with
  | obj old => exact h old rfl
  | list items => rw [value] at heq; cases heq
  | _ => cases hkey

omit [Scalar α] in
theorem idOf_eq_error {v : Value α} (h : ∀ node, v ≠ .obj node) : idOf v = .error .wrongType := by
  cases v with
  | obj node => exact absurd rfl (h node)
  | _ => rfl

theorem flatten_eq_error {v : Value α} (h : ∀ node, v ≠ .obj node) :
    flatten v = .error .noSuchMember := by
  cases v with
  | obj node => exact absurd rfl (h node)
  | _ => rfl

theorem image_idOf (v : Value α) : Image r.value (idOf v) (idOf (r.value v)) := by
  by_cases h : ∃ node, v = .obj node
  · obtain ⟨node, rfl⟩ := h
    rw [value]
    exact r.image_require_id node
  · rw [idOf_eq_error (not_exists.mp h), idOf_eq_error (r.value_ne_obj (not_exists.mp h))]
    exact .error _ _

theorem image_flatten_error {v : Value α} (h : ∀ node, v ≠ .obj node) :
    Image (List.map r.fields) (flatten v) (flatten (r.value v)) := by
  rw [flatten_eq_error h, flatten_eq_error (r.value_ne_obj h)]
  exact .error _ _

theorem image_childIds (node : Fields α) :
    Image (List.map r.value) (childIds node) (childIds (r.fields node)) := by
  unfold childIds
  rw [get_children, orElse_listed, items_listed]
  exact (Image.map_self _ _).bind fun children _ => .mapM fun child _ => r.image_idOf child

theorem flattenBelow_cons {name : String} (h : name ≠ "children") (v : Value α) (rest : Fields α) :
    flattenBelow ((name, v) :: rest) = flattenBelow rest := by
  cases v <;> exact if_neg h

mutual

/-- **Nested nodes under new names are flattened to the same nodes under new names.** -/
theorem image_flatten : ∀ v : Value α,
    Image (List.map r.fields) (flatten v) (flatten (r.value v))
  | .obj node => by
    rw [value, flatten, flatten]
    refine (r.image_childIds node).bind fun ids _ => (image_flattenBelow node).bind fun rest _ => ?_
    rw [set_children]
    exact .ok _
  | .null | .bool _ | .num _ | .str _ | .list _ => r.image_flatten_error nofun

theorem image_flattenBelow : ∀ node : List (String × Value α),
    Image (List.map r.fields) (flattenBelow node) (flattenBelow (r.fields node))
  | [] => .ok []
  | (name, v) :: rest => by
    by_cases hname : name = "children"
    · subst hname
      cases v with
      | list children => exact image_flattenAll children
      | _ => exact .ok []
    · rw [fields_cons, flattenBelow_cons hname, flattenBelow_cons hname]
      exact image_flattenBelow rest

theorem image_flattenAll : ∀ vs : List (Value α),
    Image (List.map r.fields) (flattenAll vs) (flattenAll (r.values vs))
  | [] => .ok []
  | v :: rest => by
    rw [values, flattenAll, flattenAll]
    refine (image_flatten v).bind fun first _ => (image_flattenAll rest).bind fun others _ => ?_
    rw [← List.map_append]
    exact .ok _

end

theorem image_flatten_node (v : Value α) :
    Image (List.map r.fields) (flatten v) (flatten (r.node v)) := by
  by_cases h : ∃ node, v = .obj node
  · obtain ⟨node, rfl⟩ := h
    have hflatten := r.image_flatten (.obj node)
    rwa [value] at hflatten
  · have hnode : r.node v = v := by
      cases v with
      | obj node => exact absurd ⟨node, rfl⟩ h
      | _ => rfl
    rw [hnode, flatten_eq_error (not_exists.mp h)]
    exact .error _ _

/-! ## 2. Both formats -/

theorem image_copyNode (v : Value α) : Image r.fields (copyNode v) (copyNode (r.node v)) := by
  cases v with
  | obj node =>
    simp only [copyNode, Renaming.node, asObject, ok_bind, get_children, isNull_listed,
      items_listed]
    split
    · exact .ok node
    · refine (Image.map_self (List.map r.value) _).bind fun children _ => ?_
      rw [set_children]
      exact .ok _
  | _ => exact .error _ _

theorem part_null (name : String) : r.part name .null = .null := by
  unfold part
  split
  · rfl
  · split
    · rfl
    · split <;> rfl

theorem get_part (profile : Fields α) (name : String) :
    Fields.get (profile.mapValues r.part) name = r.part name (profile.get name) :=
  Fields.get_mapValues r.part_null profile name

theorem truthy_node (v : Value α) : (r.node v).truthy = v.truthy := by
  cases v with
  | obj node => simp [Renaming.node, Value.truthy, fields_eq_mapValues, Fields.mapValues]
  | _ => rfl

theorem formatOf_profile (profile : Value α) : formatOf (r.profile profile) = formatOf profile := by
  cases profile with
  | obj fields =>
    have hhead : r.part "head" (Fields.get fields "head") = r.node (Fields.get fields "head") := rfl
    have hnodes : r.part "nodes" (Fields.get fields "nodes") =
      (Fields.get fields "nodes").mapItems r.node := rfl
    simp only [Renaming.profile, formatOf, get_part, hhead, hnodes, truthy_node,
      Value.truthy_mapItems]
  | _ => rfl

theorem itemsIfGiven_listed (v : Value α) :
    itemsIfGiven (r.listed v) = (itemsIfGiven v).map (Option.map (List.map r.value)) := by
  unfold itemsIfGiven
  rw [isNull_listed, items_listed]
  split
  · rfl
  · cases v.items <;> rfl

theorem part_of_ne {name : String} (hhead : name ≠ "head") (hnodes : name ≠ "nodes")
    (hsamples : name ≠ "samples") (v : Value α) : r.part name v = v := by
  rw [part, if_neg hhead, if_neg hnodes, if_neg hsamples]

theorem get_part_of_ne (profile : Fields α) (name : String) (hhead : name ≠ "head")
    (hnodes : name ≠ "nodes") (hsamples : name ≠ "samples") :
    Fields.get (profile.mapValues r.part) name = profile.get name := by
  rw [get_part, r.part_of_ne hhead hnodes hsamples]

theorem getD_part_of_ne (profile : Fields α) (name : String) (hhead : name ≠ "head")
    (hnodes : name ≠ "nodes") (hsamples : name ≠ "samples") (other : Value α) :
    Fields.getD (profile.mapValues r.part) name other = profile.getD name other :=
  Fields.getD_mapValues (r.part_of_ne hhead hnodes hsamples) other

theorem itemsIfGiven_samples (profile : Fields α) :
    itemsIfGiven (Fields.get (profile.mapValues r.part) "samples") =
      (itemsIfGiven (profile.get "samples")).map (Option.map (List.map r.value)) := by
  rw [get_part]
  exact r.itemsIfGiven_listed _

theorem image_ofLegacy (profile : Fields α) :
    Image r.recording (ofLegacy profile) (ofLegacy (profile.mapValues r.part)) := by
  unfold ofLegacy
  rw [r.get_part_of_ne profile "timestamps" (by decide) (by decide) (by decide),
    r.get_part_of_ne profile "lines" (by decide) (by decide) (by decide),
    r.getD_part_of_ne profile "startTime" (by decide) (by decide) (by decide),
    r.getD_part_of_ne profile "endTime" (by decide) (by decide) (by decide),
    itemsIfGiven_samples, get_part]
  dsimp only
  split
  all_goals
    refine .bind_same fun times _ => (Image.map_self _ _).bind fun samples _ => ?_
    refine (r.image_flatten_node _).bind fun nodes _ => ?_
    exact .bind_same fun start _ => .bind_same fun finish _ => .ok _

theorem image_ofCurrent (profile : Fields α) :
    Image r.recording (ofCurrent profile) (ofCurrent (profile.mapValues r.part)) := by
  have hnodes : (Fields.get (profile.mapValues r.part) "nodes").items =
      (profile.get "nodes").items.map (List.map r.node) := by
    rw [get_part]
    exact Value.items_mapItems (fun _ => rfl) _
  unfold ofCurrent
  rw [r.get_part_of_ne profile "timeDeltas" (by decide) (by decide) (by decide),
    r.get_part_of_ne profile "lines" (by decide) (by decide) (by decide),
    r.getD_part_of_ne profile "startTime" (by decide) (by decide) (by decide),
    r.getD_part_of_ne profile "endTime" (by decide) (by decide) (by decide),
    itemsIfGiven_samples, hnodes]
  refine .bind_same fun times _ => (Image.map_self _ _).bind fun samples _ => ?_
  refine (Image.map_self _ _).bind fun nodes _ => ?_
  refine (Image.mapM fun node _ => r.image_copyNode node).bind fun flat _ => ?_
  exact .bind_same fun start _ => .bind_same fun finish _ => .ok _

/-- **A profile under new names is recorded as it was, under the new names.** -/
theorem image_ofProfile (profile : Value α) :
    Image r.recording (ofProfile profile) (ofProfile (r.profile profile)) := by
  unfold ofProfile
  rw [formatOf_profile]
  refine .bind_same fun format hformat => ?_
  cases profile with
  | obj fields =>
    cases format with
    | legacy => exact r.image_ofLegacy fields
    | current => exact r.image_ofCurrent fields
  | _ => cases hformat

end Renaming
end SampledProfile
