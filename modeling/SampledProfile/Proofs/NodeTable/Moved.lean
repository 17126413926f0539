/-
# Tables with their nodes in another order

Two tables hold the same nodes in another order when every position of the first one has a place in the
second, where the same node stands, and ids are found there (`NodeTable.Moved`).  The first node keeps its
place: it is asked for its hits and its children, and it is the root.

* `exists_moved`: lists of the same nodes with the same first one make such tables;
* `Moved.fillHits`: hits are filled into both or into neither, and then the nodes are still the same;
* `Moved.perm`: so the nodes of the one table are those of the other.
-/
import Mathlib.Data.List.Perm.Subperm
import SampledProfile.Proofs.NodeTable.Hits

namespace SampledProfile
namespace NodeTable

open Outcome

variable {α : Type} [Scalar α]

/-- The second table holds the nodes of the first one at other places. -/
structure Moved (place : Nat → Nat) (table other : NodeTable α) : Prop where
  length : other.nodes.length = table.nodes.length
  inj : Function.Injective place
  lt_iff : ∀ position, place position < table.nodes.length ↔ position < table.nodes.length
  first : place 0 = 0
  nodes : ∀ position, nodeIn other.nodes (place position) = nodeIn table.nodes position
  find : ∀ id referrer, other.find id referrer = place <$> table.find id referrer

namespace Moved

variable {place : Nat → Nat} {table other : NodeTable α}

/-- The positions of several ids are moved one by one. -/
theorem findAll (h : Moved place table other) (ids : List (Value α)) (referrer : String) :
    other.findAll ids referrer = List.map place <$> table.findAll ids referrer := by
  unfold NodeTable.findAll
  induction ids with
  | nil => rfl
  | cons id rest ih =>
    rw [List.mapM_cons, h.find, ih, List.mapM_cons]
    simp only [map_bind, bind_map_left, map_pure, List.map_cons]

/-- The first nodes are the same, if there are any. -/
theorem cases (h : Moved place table other) :
    (table.nodes = [] ∧ other.nodes = []) ∨ ∃ first rest rest',
      table.nodes = first :: rest ∧ other.nodes = first :: rest' := by
  have hlength := h.length
  have hfirst := h.nodes 0
  rw [h.first] at hfirst
  cases hnodes : table.nodes with
  | nil =>
    rw [hnodes] at hlength
    exact .inl ⟨rfl, List.length_eq_zero_iff.mp hlength⟩
  | cons first rest =>
    cases hothers : other.nodes with
    | nil => simp [hnodes, hothers] at hlength
    | cons first' rest' =>
      rw [hnodes, hothers] at hfirst
      obtain rfl : first' = first := hfirst
      exact .inr ⟨_, rest, rest', rfl, rfl⟩

/-- The places of all positions are all positions. -/
theorem perm_range (h : Moved place table other) :
    ((List.range table.nodes.length).map place).Perm (List.range table.nodes.length) := by
  have hnodup : ((List.range table.nodes.length).map place).Nodup := List.nodup_range.map h.inj
  refine (List.subperm_of_subset hnodup ?_).perm_of_length_le (by simp)
  exact List.forall_mem_map.mpr fun position hp =>
    List.mem_range.mpr ((h.lt_iff position).mpr (List.mem_range.mp hp))

/-- **The nodes of the one table are those of the other.** -/
theorem perm (h : Moved place table other) : other.nodes.Perm table.nodes := by
  have hall : ∀ nodes : List (Fields α), (List.range nodes.length).map (nodeIn nodes) = nodes := by
    intro nodes
    refine List.ext_getElem (by simp) fun position _ hp => ?_
    rw [List.getElem_map, List.getElem_range, nodeIn_eq_getElem hp]
  have hmoved := h.perm_range.map (nodeIn other.nodes)
  rw [List.map_map, show nodeIn other.nodes ∘ place = nodeIn table.nodes from funext h.nodes,
    hall table.nodes, ← h.length, hall other.nodes] at hmoved
  exact hmoved.symm

/-! ## 1. Changing nodes -/

theorem set (h : Moved place table other) (position : Nat) (name : String) (value : Value α) :
    Moved place (table.set position name value) (other.set (place position) name value) := by
  have hlength : (table.set position name value).nodes.length = table.nodes.length := by
    simp [NodeTable.set]
  refine ⟨by simpa [NodeTable.set] using h.length, h.inj, ?_, h.first, fun found => ?_, h.find⟩
  · rw [hlength]
    exact h.lt_iff
  · simp only [nodeIn_set, h.length, h.nodes, h.lt_iff, h.inj.eq_iff]

theorem hit (h : Moved place table other) (position : Nat) :
    Moved place (table.hit position) (other.hit (place position)) := by
  simp only [NodeTable.hit, nodeAt_eq, h.nodes]
  split
  · exact h.set position "hitCount" _
  · exact h

theorem clearHits (h : Moved place table other) : Moved place table.clearHits other.clearHits := by
  have hlength : ∀ given : NodeTable α, given.clearHits.nodes.length = given.nodes.length :=
    fun given => by simp [NodeTable.clearHits]
  have hnode : ∀ (given : NodeTable α) (position : Nat), nodeIn given.clearHits.nodes position =
      if position < given.nodes.length then (nodeIn given.nodes position).set "hitCount" (.int 0)
      else [] := fun given position => by
    by_cases hp : position < given.nodes.length <;> simp [NodeTable.clearHits, nodeIn, hp]
  refine ⟨by rw [hlength, hlength, h.length], h.inj, ?_, h.first, fun position => ?_, h.find⟩
  · rw [hlength]
    exact h.lt_iff
  · simp only [hnode, h.length, h.lt_iff, h.nodes]

/-! ## 2. Filling in hits -/

/-- **Hits are filled into both or into neither.** -/
theorem fillHits (h : Moved place table other) (samples : Value α) :
    Moved place (table.fillHits samples).1 (other.fillHits samples).1 ∧
      (other.fillHits samples).2 = (table.fillHits samples).2 := by
  refine @related_fillHits _ _ (Moved place) (fun {table other} h sample => ?_) clearHits _ _ h ?_
    samples
  · rw [h.find]
    cases table.find sample "samples" with
    | error fault => exact .error fault
    | ok position => exact .ok (h.hit position)
  · rcases h.cases with ⟨hnodes, hothers⟩ | ⟨first, rest, rest', hnodes, hothers⟩
    · rw [hnodes, hothers]
    · rw [hnodes, hothers, List.head?_cons, List.head?_cons]

end Moved

/-! ## 3. Making tables -/

theorem keyIn_congr {nodes others : List (Fields α)} {position found : Nat}
    (h : nodeIn others found = nodeIn nodes position) : keyIn others found = keyIn nodes position := by
  rw [keyIn, idIn, h, keyIn, idIn]

omit [Scalar α] in
/-- Every node has a place in another order of the nodes. -/
theorem exists_place {nodes others : List (Fields α)} (h : others.Perm nodes) :
    ∃ place : Nat → Nat,
      (∀ position < nodes.length, place position < nodes.length ∧
        nodeIn others (place position) = nodeIn nodes position) ∧
      ∀ position, ¬ position < nodes.length → place position = position := by
  have hexists : ∀ position, ∃ found, if position < nodes.length then
      found < nodes.length ∧ nodeIn others found = nodeIn nodes position
      else found = position := by
    intro position
    by_cases hp : position < nodes.length
    · obtain ⟨found, hfound, hnode⟩ := List.getElem_of_mem (h.mem_iff.mpr (List.getElem_mem hp))
      refine ⟨found, ?_⟩
      rw [if_pos hp, nodeIn_eq_getElem hfound, nodeIn_eq_getElem hp]
      exact ⟨h.length_eq ▸ hfound, hnode⟩
    · exact ⟨position, by rw [if_neg hp]⟩
  choose place hplace using hexists
  exact ⟨place, fun position hp => by simpa [hp] using hplace position,
    fun position hp => by simpa [hp] using hplace position⟩

/-- Ids are found at the places of the nodes that they name. -/
theorem find_moved {place : Nat → Nat} {table other : NodeTable α} (hi : table.Indexed)
    (hi' : other.Indexed) (hperm : other.nodes.Perm table.nodes)
    (hplace : ∀ position < table.nodes.length, place position < table.nodes.length ∧
      nodeIn other.nodes (place position) = nodeIn table.nodes position)
    (id : Value α) (referrer : String) :
    other.find id referrer = place <$> table.find id referrer := by
  unfold NodeTable.find
  cases id.key with
  | error fault => rfl
  | ok key =>
    rw [ok_bind, ok_bind]
    cases hfound : key.lookup table.names with
    | some position =>
      obtain ⟨hp, rfl⟩ := hi.mem_names_iff.mp (Key.mem_of_lookup_eq_some hfound)
      obtain ⟨hlt, hnode⟩ := hplace position hp
      have hentry := hi'.mem_names_iff.mpr ⟨hperm.length_eq ▸ hlt, keyIn_congr hnode⟩
      rw [(Key.lookup_eq_some_iff hi'.nodup).mpr hentry]
      rfl
    | none =>
      have hnone : key.lookup other.names = none := by
        rw [Key.lookup_eq_none_iff] at hfound ⊢
        intro hmem
        obtain ⟨⟨_, found⟩, hentry, rfl⟩ := List.mem_map.mp hmem
        obtain ⟨hf, hkey⟩ := hi'.mem_names_iff.mp hentry
        -- the node that is found there stands somewhere in the first table
        obtain ⟨position, hp, hnode⟩ := List.getElem_of_mem
          (hperm.mem_iff.mp (List.getElem_mem hf))
        rw [← nodeIn_eq_getElem hp, ← nodeIn_eq_getElem hf] at hnode
        refine hfound (List.mem_map.mpr ⟨(_, position), hi.mem_names_iff.mpr ⟨hp, ?_⟩, rfl⟩)
        exact (keyIn_congr hnode).trans hkey
      rw [hnone]
      rfl

/-- **Lists of the same nodes with the same first one make tables that differ in their order.** -/
theorem exists_moved {table other : NodeTable α} (hi : table.Indexed) (hi' : other.Indexed)
    (hperm : other.nodes.Perm table.nodes)
    (hfirst : nodeIn other.nodes 0 = nodeIn table.nodes 0) : ∃ place, Moved place table other := by
  have hlength := hperm.length_eq
  obtain ⟨place, hinside, houtside⟩ := exists_place hperm
  refine ⟨place, hlength, fun position found heq => ?_, fun position => ?_, ?_, fun position => ?_,
    find_moved hi hi' hperm hinside⟩
  · by_cases hp : position < table.nodes.length <;> by_cases hf : found < table.nodes.length
    · have hkey := keyIn_congr (hinside position hp).2
      rw [heq, keyIn_congr (hinside found hf).2] at hkey
      exact hi.inj position hp found hf hkey.symm
    · have hlt := (hinside position hp).1
      rw [heq, houtside found hf] at hlt
      exact absurd hlt hf
    · have hlt := (hinside found hf).1
      rw [← heq, houtside position hp] at hlt
      exact absurd hlt hp
    · rwa [houtside position hp, houtside found hf] at heq
  · by_cases hp : position < table.nodes.length
    · simp only [hp, (hinside position hp).1]
    · simp only [hp, houtside position hp]
  · by_cases hp : 0 < table.nodes.length
    · obtain ⟨hlt, hnode⟩ := hinside 0 hp
      refine hi'.inj _ (hlength ▸ hlt) _ (hlength ▸ hp) ?_
      rw [keyIn_congr hnode, keyIn_congr hfirst]
    · exact houtside 0 hp
  · by_cases hp : position < table.nodes.length
    · exact (hinside position hp).2
    · rw [houtside position hp, nodeIn, nodeIn, List.getElem?_eq_none (by omega),
        List.getElem?_eq_none (by omega)]

end NodeTable
end SampledProfile
