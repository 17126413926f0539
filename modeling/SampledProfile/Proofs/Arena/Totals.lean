/-
# The totals of an arena

Totals are added up in one pass from the last slot to the first, each into its parent's.  When a
slot's turn comes all that is below it has been added already, as it stands further back; so what it
passes on is final.

* `Arena.totalAt_addUp`: in the end the total of a slot is what it was, with the totals of its
  children added from the last child to the first.  Nothing is asked of addition;
* `Arena.sum_totalAt_of_laid`: where the order of a sum does not matter, that is the sum of the
  shares in the subtree.
-/
import Mathlib.Algebra.BigOperators.Group.List.Basic
import SampledProfile.Proofs.Arena.Layout

namespace SampledProfile
namespace Arena

variable {β α : Type}

/-- The total of the slot at a position, zero outside. -/
def totalAt [Zero α] (arena : Arena β α) (position : Nat) : α :=
  (arena[position]?.map Slot.total).getD 0

theorem totalAt_of_getElem? [Zero α] {arena : Arena β α} {position : Nat} {slot : Slot β α}
    (h : arena[position]? = some slot) : arena.totalAt position = slot.total := by
  rw [totalAt, h, Option.map_some, Option.getD_some]

/-! ## 1. Adding up -/

section AddingUp

variable [Zero α] [Add α]

/-- What a slot adds goes to its parent and nowhere else. -/
theorem totalAt_addInto {arena : Arena β α} {position above : Nat}
    (hparent : arena.parent? position = some above) (habove : above < arena.size) (place : Nat) :
    (arena.addInto position).totalAt place =
      if place = above then arena.totalAt above + arena.totalAt position
      else arena.totalAt place := by
  obtain ⟨slot, hslot, hslotParent⟩ := Option.bind_eq_some_iff.mp hparent
  have hadded : arena.addInto position = arena.modify above fun parent =>
      { parent with total := parent.total + slot.total } := by
    rw [addInto, hslot]
    simp only [hslotParent]
  rw [hadded, totalAt, Array.getElem?_modify, totalAt_of_getElem? hslot]
  by_cases heq : place = above
  · subst heq
    obtain ⟨parent, hfound⟩ : ∃ parent, arena[place]? = some parent :=
      ⟨_, Array.getElem?_eq_getElem habove⟩
    simp [totalAt, hfound]
  · rw [if_neg (fun h => heq h.symm), if_neg heq, totalAt]

omit [Zero α] in
/-- A root adds to nothing. -/
theorem addInto_of_root {arena : Arena β α} {position : Nat}
    (hparent : arena.parent? position = none) : arena.addInto position = arena := by
  unfold addInto
  unfold parent? at hparent
  split
  · rename_i slot hslot
    rw [hslot, Option.bind_some] at hparent
    rw [hparent]
  · rfl

omit [Zero α] [Add α] in
/-- The children that stand below a bound. -/
theorem filter_children {arena : Arena β α} {bound : Nat} (h : bound ≤ arena.size)
    (position : Nat) : (arena.children position).filter (· < bound) =
      (List.range bound).filter fun other => arena.parent? other = some position := by
  obtain ⟨more, hmore⟩ := Nat.exists_eq_add_of_le h
  have hrange : (List.range arena.size).filter (· < bound) = List.range bound := by
    rw [hmore, List.range_eq_range', ← List.range'_append_1, List.filter_append,
      ← List.range_eq_range', Nat.zero_add]
    have hlow : (List.range bound).filter (· < bound) = List.range bound :=
      List.filter_eq_self.mpr fun other hother => by simpa using hother
    have hhigh : (List.range' bound more).filter (· < bound) = [] :=
      List.filter_eq_nil_iff.mpr fun other hother => by
        have := (List.mem_range'_1.mp hother).1
        simpa using this
    rw [hlow, hhigh, List.append_nil]
  rw [children, List.filter_comm, hrange]

/-- **Once the slots below a bound have been added up, each has what it had before and the totals of
those of its children that stand below the bound, the last one first.** -/
theorem totalAt_addUp : ∀ (bound : Nat) {arena : Arena β α}, arena.WellPlaced →
    bound ≤ arena.size → ∀ place, (arena.addUp bound).totalAt place =
      ((arena.children place).filter (· < bound)).foldr
        (fun child sum => sum + (arena.addUp bound).totalAt child) (arena.totalAt place)
  | 0, arena, _, _, place => by simp [addUp]
  | bound + 1, arena, hwell, hbound, place => by
    have hskeleton := skeleton_addInto arena bound
    have hsize : (arena.addInto bound).size = arena.size := size_eq_of_skeleton hskeleton
    have hchildren := children_congr hskeleton
    have hle : bound ≤ arena.size := Nat.le_of_succ_le hbound
    have hrest := totalAt_addUp bound (hwell.congr hskeleton) (hsize.symm ▸ hle)
    simp only [hchildren] at hrest
    rw [filter_children hbound, List.range_succ, List.filter_append, List.foldr_append,
      ← filter_children hle]
    -- nothing below a slot stands before it, so what it passes on is final
    have hfinal : (arena.addUp (bound + 1)).totalAt bound = (arena.addInto bound).totalAt bound := by
      have hnone : (arena.children bound).filter (· < bound) = [] :=
        List.filter_eq_nil_iff.mpr fun other hother => by
          have := hwell.lt_of_mem_children hother
          simp only [decide_eq_true_eq]
          omega
      rw [addUp, hrest bound, hnone, List.foldr_nil]
    rw [List.filter_cons, List.filter_nil]
    rcases Nat.eq_zero_or_pos bound with hzero | hpos
    · have hroot : arena.parent? bound = none := hzero ▸ hwell.rootParent
      rw [hroot, addUp, hrest place, addInto_of_root hroot]
      simp
    · obtain ⟨above, habove, hparent, -⟩ := hwell.parent bound hbound hpos
      have hadd := totalAt_addInto hparent (Nat.lt_trans habove hbound)
      have hkept : (arena.addInto bound).totalAt bound = arena.totalAt bound := by
        rw [hadd, if_neg (Nat.ne_of_gt habove)]
      rw [hparent, addUp, hrest place, hadd place]
      rw [addUp] at hfinal
      by_cases heq : place = above
      · subst heq
        simp [hfinal, hkept]
      · have hne : ¬ above = place := fun h => heq h.symm
        simp [heq, hne]

end AddingUp
end Arena

namespace Tree

open Arena

variable {β α : Type}

/-! ## 2. The arena of a tree -/

/-- Every slot has its share to begin with. -/
theorem total_placeAll (share : β → α) (trees : List (Tree β)) :
    ∀ {position depth : Nat} {arena : Arena β α}, (∀ slot ∈ arena.toList, slot.total = share slot.label) →
      ∀ slot ∈ (placeAll share trees position depth arena).toList, slot.total = share slot.label := by
  induction trees using forest_induction with
  | nil => exact fun h => h
  | cons label below rest ihb ihr =>
    intro position depth arena h
    rw [placeAll_cons]
    refine ihb fun slot hslot => ?_
    rw [Array.toList_appendList, List.mem_append] at hslot
    rcases hslot with hslot | hslot
    · exact ihr h slot hslot
    · obtain ⟨tree, -, rfl⟩ := List.mem_map.mp hslot
      rfl

/-- **The total of a node is its share, with the totals of its children added from the last to the
first.** -/
theorem totalAt_arrange [Zero α] [Add α] (share : β → α) (tree : Tree β) {place : Nat} {label : β}
    (h : (tree.arrange share).labels[place]? = some label) :
    (tree.arrange share).totalAt place =
      ((tree.arrange share).children place).foldr
        (fun child sum => sum + (tree.arrange share).totalAt child) (share label) := by
  let root : Arena β α := #[⟨tree.label, 0, none, share tree.label⟩]
  let placed : Arena β α := placeAll share [tree] 0 0 root
  have harrange : tree.arrange share = placed.addUp placed.size := rfl
  have hskeleton : (tree.arrange share).skeleton = placed.skeleton := skeleton_addUp _ _
  have hwell : placed.WellPlaced := (wellPlaced_arrange share tree).1.congr hskeleton.symm
  have hshares : ∀ slot ∈ placed.toList, slot.total = share slot.label := by
    refine total_placeAll share [tree] fun slot hslot => ?_
    obtain rfl : slot = ⟨tree.label, 0, none, share tree.label⟩ := by simpa [root] using hslot
    rfl
  have hown : placed.totalAt place = share label := by
    rw [labels_eq, hskeleton, ← labels_eq, getElem?_labels] at h
    obtain ⟨slot, hslot, rfl⟩ := Option.map_eq_some_iff.mp h
    rw [totalAt_of_getElem? hslot]
    rw [← Array.getElem?_toList] at hslot
    exact hshares slot (List.mem_of_getElem? hslot)
  have hall : (placed.children place).filter (· < placed.size) = placed.children place :=
    List.filter_eq_self.mpr fun other hother => by simpa using (mem_children_iff.mp hother).1
  rw [children_congr hskeleton, ← hown, harrange, totalAt_addUp _ hwell (Nat.le_refl _), hall]

end Tree

/-! ## 3. Subtrees -/

theorem foldr_add_eq_sum {α : Type} [AddCommMonoid α] (f : Nat → α) (start : α) :
    ∀ positions : List Nat, positions.foldr (fun position sum => sum + f position) start =
      start + (positions.map f).sum
  | [] => (add_zero start).symm
  | position :: rest => by
    rw [List.foldr_cons, foldr_add_eq_sum f start rest, List.map_cons, List.sum_cons, add_assoc,
      add_comm (rest.map f).sum]

/-- **The total of a node is the sum of the shares in its subtree**, and so with some neighbours. -/
theorem Arena.sum_totalAt_of_laid {β α : Type} [AddCommMonoid α] (share : β → α) (tree : Tree β)
    {trees : List (Tree β)} {position depth : Nat}
    (h : (tree.arrange share).Laid trees position depth) :
    ((List.range' position trees.length).map (tree.arrange share).totalAt).sum =
      ((Tree.labelsAll trees).map share).sum := by
  induction h with
  | nil => rfl
  | @cons label below rest position depth first hlabel _ hchildren _ _ ihb ihr =>
    have htotal : (tree.arrange share).totalAt position =
        share label + ((Tree.labelsAll below).map share).sum := by
      rw [Tree.totalAt_arrange share tree hlabel, foldr_add_eq_sum, hchildren, ihb]
    rw [List.length_cons, List.range'_succ, List.map_cons, List.sum_cons, htotal, ihr]
    rw [Tree.labelsAll_cons, Tree.labels_node, List.map_append, List.map_cons, List.sum_append,
      List.sum_cons]

end SampledProfile
