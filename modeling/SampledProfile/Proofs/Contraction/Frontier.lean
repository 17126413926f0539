/-
# Walks that meet no node twice

Where no node is listed as a child twice, nor the first one at all, a walk from the first node fails
only where a node cannot be read.  The reason is an account that every step keeps (`Frontier`): the
nodes met, with those still to be gone through, are the first node and all children of the nodes
met.  So no node still to be gone through has been met, as it would be listed twice.

* `ends_walk`: the walk over any part of what is to be gone through keeps the account, or ends with
  a fault that reading a node ends with;
* `Frontier.mem_of_reachable`: when nothing is left to be gone through, all that can be reached from
  the first node has been met.
-/
import Mathlib.Data.List.Flatten
import Mathlib.Data.List.Perm.Basic
import Mathlib.Logic.Relation
import SampledProfile.Proofs.Contraction.Walk

namespace SampledProfile
namespace Contraction

open Outcome NodeTable

variable {α : Type} [Scalar α]

/-! ## 1. The account -/

/-- The nodes `visited` were met, `pending` are still to be gone through, and `below` has the
children of every node. -/
structure Frontier (table : NodeTable α) (below : Nat → List Nat) (trail : Trail α)
    (visited pending : List Nat) : Prop where
  keys : trail.map Prod.fst = visited.map (keyIn table.nodes)
  root : 0 ∈ visited
  nodup : visited.Nodup
  lt : ∀ position ∈ visited, position < table.nodes.length
  account : (0 :: visited.flatMap below).Perm (visited ++ pending)

namespace Frontier

variable {table : NodeTable α} {below : Nat → List Nat} {trail : Trail α}
  {visited pending : List Nat}

theorem length_eq (h : Frontier table below trail visited pending) :
    trail.length = visited.length := by
  simpa using congrArg List.length h.keys

theorem length_le (h : Frontier table below trail visited pending) :
    trail.length ≤ table.nodes.length := by
  have hlength := (List.subperm_of_subset h.nodup fun position hp =>
    List.mem_range.mpr (h.lt position hp)).length_le
  rwa [List.length_range, ← h.length_eq] at hlength

/-- No node is still to be gone through that has been met, or that is to be gone through twice. -/
theorem nodup_all (h : Frontier table below trail visited pending)
    (hdistinct : (0 :: (List.range table.nodes.length).flatMap below).Nodup) :
    (visited ++ pending).Nodup := by
  obtain ⟨part, hperm, hsub⟩ := List.subperm_of_subset h.nodup fun position hp =>
    List.mem_range.mpr (h.lt position hp)
  refine (h.account.symm.trans ((hperm.symm.flatMap_right below).cons 0)).nodup_iff.mpr ?_
  exact hdistinct.sublist ((hsub.flatMap below).cons_cons 0)

/-- The trail has no entry yet for what is still to be gone through. -/
theorem fresh {position : Nat} (h : Frontier table below trail visited (position :: pending))
    (hi : table.Indexed) (hdistinct : (0 :: (List.range table.nodes.length).flatMap below).Nodup)
    (hp : position < table.nodes.length) :
    keyIn table.nodes position ∉ trail.map Prod.fst := by
  rw [h.keys]
  intro hmem
  obtain ⟨other, hother, heq⟩ := List.mem_map.mp hmem
  obtain rfl := hi.inj other (h.lt other hother) position hp heq
  exact List.disjoint_of_nodup_append (h.nodup_all hdistinct) hother List.mem_cons_self

/-- What is still to be gone through are nodes of the table. -/
theorem pending_lt (h : Frontier table below trail visited pending)
    (hbelow : ∀ position < table.nodes.length, ∀ child ∈ below position,
      child < table.nodes.length) (hpos : 0 < table.nodes.length) :
    ∀ position ∈ pending, position < table.nodes.length := by
  intro position hp
  rcases List.mem_cons.mp (h.account.mem_iff.mpr (List.mem_append_right visited hp)) with rfl | hp
  · exact hpos
  · obtain ⟨parent, hparent, hchild⟩ := List.mem_flatMap.mp hp
    exact hbelow parent (h.lt parent hparent) position hchild

/-- One more node is met, and its children are still to be gone through. -/
theorem step {position : Nat} (h : Frontier table below trail visited (position :: pending))
    (hdistinct : (0 :: (List.range table.nodes.length).flatMap below).Nodup)
    (hp : position < table.nodes.length) (id : Value α) :
    Frontier table below ((keyIn table.nodes position, id) :: trail) (position :: visited)
      ((below position).reverse ++ pending) := by
  have hnew : position ∉ visited := fun hmem =>
    List.disjoint_of_nodup_append (h.nodup_all hdistinct) hmem List.mem_cons_self
  refine ⟨?_, List.mem_cons_of_mem _ h.root, List.nodup_cons.mpr ⟨hnew, h.nodup⟩,
    List.forall_mem_cons.mpr ⟨hp, h.lt⟩, ?_⟩
  · rw [List.map_cons, List.map_cons, h.keys]
  · rw [List.perm_iff_count]
    intro other
    have haccount := h.account.count_eq other
    simp only [List.flatMap_cons, List.cons_append, List.count_cons, List.count_append,
      List.count_reverse] at haccount ⊢
    omega

/-- The account before the first step. -/
theorem start (hpos : 0 < table.nodes.length) (id : Value α) :
    Frontier table below [(keyIn table.nodes 0, id)] [0] (below 0).reverse := by
  refine ⟨rfl, List.mem_singleton_self 0, List.nodup_singleton 0, by simpa using hpos, ?_⟩
  simp

/-- What can be reached has been met, when nothing is left. -/
theorem mem_of_reachable (h : Frontier table below trail visited []) {position : Nat}
    (hreach : Relation.ReflTransGen (fun above other => other ∈ below above) 0 position) :
    position ∈ visited := by
  have haccount := h.account
  rw [List.append_nil] at haccount
  induction hreach with
  | refl => exact haccount.mem_iff.mp List.mem_cons_self
  | tail _ hchild ih =>
    exact haccount.mem_iff.mp
      (List.mem_cons_of_mem _ (List.mem_flatMap.mpr ⟨_, ih, hchild⟩))

end Frontier

/-! ## 2. The walk -/

/-- Before anything is met, meeting a node is reading it. -/
theorem meet_eq_read {table : NodeTable α} {time : α} {keepNatives : Bool} {trail : Trail α}
    {position : Nat} {key : Key} (hkey : (idIn table.nodes position).key = .ok key)
    (hfresh : key ∉ trail.map Prod.fst) :
    meet table time keepNatives trail position = read table time keepNatives position := by
  have hlook : (key.lookup trail).isSome = false := by
    rw [← Bool.not_eq_true, Key.isSome_lookup_iff]
    exact hfresh
  rw [idIn] at hkey
  simp only [meet, read, nodeAt_eq, hkey]
  show (if (key.lookup trail).isSome then _ else _) = _
  rw [hlook, if_neg Bool.false_ne_true]
  rfl

/-- **A walk over nodes of which none is listed twice succeeds if they can be read, and fails in no
other way than reading does.** -/
theorem ends_walk {table : NodeTable α} (hi : table.Indexed) {time : α} {keepNatives : Bool}
    {faulty : Fault → Prop} {below : Nat → List Nat}
    (hread : ∀ position < table.nodes.length, position ≠ 0 →
      Ends faulty (fun node => node.below = below position) (read table time keepNatives position))
    (hbelow : ∀ position < table.nodes.length, ∀ child ∈ below position,
      child < table.nodes.length)
    (hdistinct : (0 :: (List.range table.nodes.length).flatMap below).Nodup)
    (hpos : 0 < table.nodes.length) : ∀ (fuel : Nat) (positions others : List Nat)
    (owner : CallTree α) {trail : Trail α} {visited : List Nat},
    Frontier table below trail visited (positions ++ others) →
    table.nodes.length < trail.length + fuel →
      Ends faulty (fun result => trail.length ≤ result.2.length ∧
          ∃ after, Frontier table below result.2 after others)
        (walk table time keepNatives fuel positions owner trail)
  | fuel, [], others, owner, trail, visited, h, _ =>
    .of_eq_ok (a := (owner, trail)) (by cases fuel <;> rfl) ⟨Nat.le_refl _, visited, h⟩
  | 0, position :: rest, others, _, trail, visited, h, hfuel => by
    have hlength := h.length_le
    omega
  | fuel + 1, position :: rest, others, owner, trail, visited, h, hfuel => by
    have hp : position < table.nodes.length := h.pending_lt hbelow hpos position (by simp)
    have hne : position ≠ 0 := by
      rintro rfl
      exact List.disjoint_of_nodup_append (h.nodup_all hdistinct) h.root List.mem_cons_self
    have hfresh := h.fresh hi hdistinct hp
    have hstep := fun id => h.step hdistinct hp id
    have hlength : ∀ id : Value α,
        table.nodes.length < ((keyIn table.nodes position, id) :: trail : Trail α).length + fuel :=
      fun id => by
        rw [List.length_cons]
        omega
    have hnode : Ends faulty
        (fun node => node.below = below position ∧ node.key = keyIn table.nodes position)
        (read table time keepNatives position) :=
      (hread position hp hne).and_ok fun node hnode =>
        (key_mem_names hi hp (read_eq_ok_iff.mp hnode).2.1).1
    rw [walk_cons, meet_eq_read (hi.key position hp) hfresh]
    refine hnode.bind fun node hnode => ?_
    obtain ⟨hchildren, hkey⟩ := hnode
    rw [hkey, hchildren]
    split
    · refine (ends_walk hi hread hbelow hdistinct hpos fuel ((below position).reverse ++ rest) others
        _ (by simpa using hstep owner.label.id) (hlength _)).mono fun result hresult => ?_
      obtain ⟨hle, hafter⟩ := hresult
      rw [List.length_cons] at hle
      exact ⟨by omega, hafter⟩
    · refine (ends_walk hi hread hbelow hdistinct hpos fuel (below position).reverse
        (rest ++ others) _ (by simpa using hstep node.call.id) (hlength _)).bind fun inner hinner => ?_
      obtain ⟨hleInner, met, hmet⟩ := hinner
      rw [List.length_cons] at hleInner
      refine (ends_walk hi hread hbelow hdistinct hpos fuel rest others (owner.attach inner.1) hmet
        (by omega)).mono fun result hresult => ?_
      exact ⟨by omega, hresult.2⟩

end Contraction
end SampledProfile
