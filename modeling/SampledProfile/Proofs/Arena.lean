/-
# Arenas of trees

In the arena of a tree the root stands first, and every other slot names as its parent an earlier
one that is one step nearer to the root (`Arena.WellPlaced`).  The slots have the labels of the
tree (`Tree.wellPlaced_placed`).

Laying out comes before adding up.  `Tree.placeAll` only adds slots at the end, each below one that
is there (`wellPlaced_placeAll`); `Arena.addUp` changes nothing but totals, so what an arena is
without them, its SKELETON, stays what it is (`Arena.skeleton_addUp`).
-/
import Mathlib.Data.List.Perm.Basic
import SampledProfile.Proofs.Forest

namespace SampledProfile
namespace Arena

variable {β α : Type}

/-! ## 1. Skeletons -/

/-- An arena without totals. -/
def skeleton (arena : Arena β α) : List (β × Nat × Option Nat) :=
  arena.toList.map fun slot => (slot.label, slot.depth, slot.parent)

/-- The labels of the slots. -/
def labels (arena : Arena β α) : List β := arena.toList.map Slot.label

theorem labels_eq (arena : Arena β α) : arena.labels = arena.skeleton.map Prod.fst := by
  simp [labels, skeleton]

theorem getElem?_skeleton (arena : Arena β α) (position : Nat) :
    arena.skeleton[position]? =
      arena[position]?.map fun slot => (slot.label, slot.depth, slot.parent) := by
  simp [skeleton]

theorem size_eq_of_skeleton {arena other : Arena β α} (h : arena.skeleton = other.skeleton) :
    arena.size = other.size := by
  simpa [skeleton] using congrArg List.length h

theorem parent?_eq (arena : Arena β α) (position : Nat) :
    arena.parent? position = arena.skeleton[position]?.bind fun entry => entry.2.2 := by
  rw [getElem?_skeleton, parent?]
  cases arena[position]? <;> rfl

theorem depth_eq (arena : Arena β α) (position : Nat) :
    arena.depth position = (arena.skeleton[position]?.map fun entry => entry.2.1).getD 0 := by
  rw [getElem?_skeleton, depth]
  cases arena[position]? <;> rfl

theorem skeleton_addInto [Add α] (arena : Arena β α) (position : Nat) :
    (arena.addInto position).skeleton = arena.skeleton := by
  unfold addInto
  split
  · rename_i slot _
    split
    · rename_i parent _
      refine List.ext_getElem? fun other => ?_
      rw [getElem?_skeleton, getElem?_skeleton, Array.getElem?_modify]
      split
      · cases arena[other]? <;> rfl
      · rfl
    · rfl
  · rfl

/-- Adding up changes nothing but totals. -/
theorem skeleton_addUp [Add α] (arena : Arena β α) : ∀ bound : Nat,
    (arena.addUp bound).skeleton = arena.skeleton
  | 0 => rfl
  | bound + 1 => by
    rw [addUp, skeleton_addUp (arena.addInto bound) bound, skeleton_addInto]

/-! ## 2. Parents -/

/-- The root is first, and the parent of every other slot comes earlier and is one step nearer. -/
structure WellPlaced (arena : Arena β α) : Prop where
  pos : 0 < arena.size
  rootParent : arena.parent? 0 = none
  rootDepth : arena.depth 0 = 0
  parent : ∀ position < arena.size, 0 < position →
    ∃ above < position, arena.parent? position = some above ∧
      arena.depth position = arena.depth above + 1

theorem WellPlaced.lt_of_parent {arena : Arena β α} (h : arena.WellPlaced) {position above : Nat}
    (hp : position < arena.size) (hparent : arena.parent? position = some above) :
    above < position := by
  rcases Nat.eq_zero_or_pos position with rfl | hpos
  · rw [h.rootParent] at hparent
    cases hparent
  · obtain ⟨found, hlt, hfound, -⟩ := h.parent position hp hpos
    rw [hparent] at hfound
    exact Option.some.inj hfound ▸ hlt

theorem WellPlaced.congr {arena other : Arena β α} (h : arena.WellPlaced)
    (heq : other.skeleton = arena.skeleton) : other.WellPlaced := by
  have hsize := size_eq_of_skeleton heq
  have hparent : ∀ position, other.parent? position = arena.parent? position := fun position => by
    rw [parent?_eq, heq, ← parent?_eq]
  have hdepth : ∀ position, other.depth position = arena.depth position := fun position => by
    rw [depth_eq, heq, ← depth_eq]
  refine ⟨hsize ▸ h.pos, (hparent 0).trans h.rootParent, (hdepth 0).trans h.rootDepth, ?_⟩
  intro position hp hne
  obtain ⟨above, hlt, ha, hd⟩ := h.parent position (hsize ▸ hp) hne
  exact ⟨above, hlt, (hparent position).trans ha, by rw [hdepth, hdepth, hd]⟩

theorem getElem?_append_list (arena : Arena β α) (slots : List (Slot β α)) (position : Nat) :
    (arena ++ slots)[position]? =
      if position < arena.size then arena[position]? else slots[position - arena.size]? := by
  rw [← Array.getElem?_toList, Array.toList_appendList, List.getElem?_append, Array.length_toList,
    Array.getElem?_toList]

/-- No slot lies deeper than the deepest. -/
theorem depth_le_maxDepth (arena : Arena β α) (position : Nat) :
    arena.depth position ≤ arena.maxDepth := by
  have hfold : ∀ (slots : List (Slot β α)) (most : Nat),
      most ≤ slots.foldl (fun most slot => max most slot.depth) most ∧
        ∀ slot ∈ slots, slot.depth ≤ slots.foldl (fun most slot => max most slot.depth) most := by
    intro slots
    induction slots with
    | nil => simp
    | cons slot rest ih =>
      intro most
      obtain ⟨hmost, hrest⟩ := ih (max most slot.depth)
      rw [List.foldl_cons, List.forall_mem_cons]
      exact ⟨by omega, by omega, hrest⟩
  rw [depth, maxDepth, ← Array.foldl_toList]
  cases hslot : arena[position]? with
  | none => exact Nat.zero_le _
  | some slot =>
    rw [← Array.getElem?_toList] at hslot
    exact (hfold arena.toList 0).2 slot (List.mem_of_getElem? hslot)

/-- Some slot is the deepest. -/
theorem WellPlaced.exists_deepest {arena : Arena β α} (h : arena.WellPlaced) :
    ∃ position < arena.size, arena.depth position = arena.maxDepth := by
  have hfold : ∀ (slots : List (Slot β α)) (most : Nat),
      slots.foldl (fun most slot => max most slot.depth) most = most ∨
        ∃ slot ∈ slots, slot.depth = slots.foldl (fun most slot => max most slot.depth) most := by
    intro slots
    induction slots with
    | nil => exact fun most => .inl rfl
    | cons slot rest ih =>
      intro most
      rw [List.foldl_cons]
      rcases ih (max most slot.depth) with heq | ⟨deepest, hmem, heq⟩
      · rcases Nat.le_total most slot.depth with hle | hle
        · rw [Nat.max_eq_right hle] at heq ⊢
          exact .inr ⟨slot, List.mem_cons_self, heq.symm⟩
        · rw [Nat.max_eq_left hle] at heq ⊢
          exact .inl heq
      · exact .inr ⟨deepest, List.mem_cons_of_mem _ hmem, heq⟩
  rw [maxDepth, ← Array.foldl_toList]
  rcases hfold arena.toList 0 with heq | ⟨slot, hmem, heq⟩
  · exact ⟨0, h.pos, h.rootDepth.trans heq.symm⟩
  · obtain ⟨position, hposition⟩ := List.mem_iff_getElem?.mp hmem
    have hget : arena[position]? = some slot := by rwa [← Array.getElem?_toList]
    refine ⟨position, (Array.getElem?_eq_some_iff.mp hget).1, ?_⟩
    rw [depth, hget, ← heq]
    rfl

/-- New slots at the end, each below one that is there. -/
theorem WellPlaced.append {arena : Arena β α} (h : arena.WellPlaced) {slots : List (Slot β α)}
    (hslots : ∀ slot ∈ slots, ∃ above < arena.size, slot.parent = some above ∧
      slot.depth = arena.depth above + 1) : WellPlaced (arena ++ slots) := by
  have hold : ∀ position < arena.size, (arena ++ slots)[position]? = arena[position]? :=
    fun position hp => by rw [getElem?_append_list, if_pos hp]
  have hparent : ∀ position < arena.size,
      Arena.parent? (arena ++ slots) position = arena.parent? position := fun position hp => by
    rw [Arena.parent?, hold position hp, Arena.parent?]
  have hdepth : ∀ position < arena.size,
      Arena.depth (arena ++ slots) position = arena.depth position := fun position hp => by
    rw [Arena.depth, hold position hp, Arena.depth]
  have hsize : (arena ++ slots).size = arena.size + slots.length := by
    rw [← Array.length_toList, Array.toList_appendList, List.length_append, Array.length_toList]
  refine ⟨by have := h.pos; omega, (hparent 0 h.pos).trans h.rootParent,
    (hdepth 0 h.pos).trans h.rootDepth, fun position hp hne => ?_⟩
  by_cases hlt : position < arena.size
  · obtain ⟨above, ha, hpa, hd⟩ := h.parent position hlt hne
    refine ⟨above, ha, (hparent position hlt).trans hpa, ?_⟩
    rw [hdepth position hlt, hdepth above (by omega), hd]
  · obtain ⟨slot, hslot⟩ : ∃ slot, slots[position - arena.size]? = some slot :=
      ⟨_, List.getElem?_eq_getElem (by omega)⟩
    obtain ⟨above, ha, hpa, hd⟩ := hslots slot (List.mem_of_getElem? hslot)
    have hget : (arena ++ slots)[position]? = some slot := by
      rw [getElem?_append_list, if_neg hlt, hslot]
    refine ⟨above, by omega, ?_, ?_⟩
    · rw [Arena.parent?, hget, Option.bind_some, hpa]
    · rw [hdepth above ha, Arena.depth, hget, Option.map_some, Option.getD_some, hd]

/-- Every slot of the first arena is still there. -/
def Extends (arena other : Arena β α) : Prop :=
  arena.size ≤ other.size ∧ ∀ position < arena.size, other[position]? = arena[position]?

theorem Extends.trans {arena next other : Arena β α} (h : Extends arena next)
    (h' : Extends next other) : Extends arena other :=
  ⟨Nat.le_trans h.1 h'.1, fun position hp =>
    (h'.2 position (Nat.lt_of_lt_of_le hp h.1)).trans (h.2 position hp)⟩

theorem extends_append (arena : Arena β α) (slots : List (Slot β α)) :
    Extends arena (arena ++ slots) := by
  refine ⟨?_, fun position hp => by rw [getElem?_append_list, if_pos hp]⟩
  rw [← Array.length_toList, ← Array.length_toList, Array.toList_appendList, List.length_append]
  omega

theorem Extends.depth_eq {arena other : Arena β α} (h : Extends arena other) {position : Nat}
    (hp : position < arena.size) : other.depth position = arena.depth position := by
  rw [depth, h.2 position hp, depth]

theorem getElem?_labels (arena : Arena β α) (position : Nat) :
    arena.labels[position]? = arena[position]?.map Slot.label := by
  simp [labels]

theorem lt_size_of_label {arena : Arena β α} {position : Nat} {label : β}
    (h : arena.labels[position]? = some label) : position < arena.size := by
  have hlt := (List.getElem?_eq_some_iff.mp h).1
  simpa [labels] using hlt

theorem Extends.label_eq {arena other : Arena β α} (h : Extends arena other) {position : Nat}
    (hp : position < arena.size) : other.labels[position]? = arena.labels[position]? := by
  rw [getElem?_labels, h.2 position hp, getElem?_labels]

end Arena

namespace Tree

open Arena

variable {β α : Type}

/-! ## 3. Laying out -/

/-- The slots of the roots of some trees, below one position. -/
def slotsOf (share : β → α) (position depth : Nat) (trees : List (Tree β)) : List (Slot β α) :=
  trees.map fun tree => ⟨tree.label, depth, some position, share tree.label⟩

theorem placeAll_cons (share : β → α) (label : β) (below rest : List (Tree β))
    (position depth : Nat) (arena : Arena β α) :
    placeAll share (.node label below :: rest) position depth arena =
      placeAll share below (placeAll share rest (position + 1) depth arena).size (depth + 1)
        (placeAll share rest (position + 1) depth arena ++
          slotsOf share position (depth + 1) below) := rfl

/-- Neighbours that stand in an arena at some depth. -/
def StandAt (trees : List (Tree β)) (position depth : Nat) (arena : Arena β α) : Prop :=
  ∀ i < trees.length, position + i < arena.size ∧ arena.depth (position + i) = depth

theorem standAt_slotsOf (share : β → α) (position depth : Nat) (trees : List (Tree β))
    (arena : Arena β α) :
    StandAt trees arena.size depth (arena ++ slotsOf share position depth trees) := by
  intro i hi
  have hget : (arena ++ slotsOf share position depth trees)[arena.size + i]? =
      some ⟨trees[i].label, depth, some position, share trees[i].label⟩ := by
    rw [getElem?_append_list, if_neg (by omega), Nat.add_sub_cancel_left]
    simp [slotsOf, hi]
  refine ⟨?_, by rw [Arena.depth, hget]; rfl⟩
  exact (Array.getElem?_eq_some_iff.mp hget).1

/-- The slots for what is below a position, and what becomes of an arena with them. -/
theorem wellPlaced_slotsOf (share : β → α) {arena : Arena β α} (h : arena.WellPlaced)
    {position : Nat} (hp : position < arena.size) (trees : List (Tree β)) :
    WellPlaced (arena ++ slotsOf share position (arena.depth position + 1) trees) := by
  refine h.append fun slot hslot => ?_
  obtain ⟨tree, -, rfl⟩ := List.mem_map.mp hslot
  exact ⟨position, hp, rfl, rfl⟩

/-- **Laying out only adds slots, each below one that is there.** -/
theorem wellPlaced_placeAll (share : β → α) (trees : List (Tree β)) :
    ∀ {position depth : Nat} {arena : Arena β α}, arena.WellPlaced →
      StandAt trees position depth arena →
      (placeAll share trees position depth arena).WellPlaced ∧
        Extends arena (placeAll share trees position depth arena) := by
  induction trees using forest_induction with
  | nil => exact fun h _ => ⟨h, Nat.le_refl _, fun _ _ => rfl⟩
  | cons label below rest ihb ihr =>
    intro position depth arena h hstand
    rw [placeAll_cons]
    obtain ⟨hpos, hdepth⟩ : position < arena.size ∧ arena.depth position = depth :=
      hstand 0 (Nat.zero_lt_succ _)
    have hrest : StandAt rest (position + 1) depth arena := fun i hi => by
      have := hstand (i + 1) (by simpa using hi)
      rwa [Nat.add_right_comm, Nat.add_assoc]
    obtain ⟨hwell, hext⟩ := ihr h hrest
    generalize placeAll share rest (position + 1) depth arena = laid at hwell hext ⊢
    have hslots : WellPlaced (laid ++ slotsOf share position (depth + 1) below) := by
      rw [← hdepth, ← hext.depth_eq hpos]
      exact wellPlaced_slotsOf share hwell (Nat.lt_of_lt_of_le hpos hext.1) below
    obtain ⟨hwell', hext'⟩ := ihb hslots (standAt_slotsOf share position (depth + 1) below laid)
    exact ⟨hwell', (hext.trans (extends_append _ _)).trans hext'⟩

theorem labels_append (arena : Arena β α) (slots : List (Slot β α)) :
    Arena.labels (arena ++ slots) = arena.labels ++ slots.map Slot.label := by
  rw [Arena.labels, Array.toList_appendList, List.map_append, Arena.labels]

/-- Laying out adds the labels of all that is below. -/
theorem labels_placeAll (share : β → α) (trees : List (Tree β)) :
    ∀ {position depth : Nat} {arena : Arena β α},
      (placeAll share trees position depth arena).labels.Perm
        (arena.labels ++ trees.flatMap fun tree => labelsAll tree.children) := by
  induction trees using forest_induction with
  | nil => exact fun {_ _ arena} => by simp [placeAll]
  | cons label below rest ihb ihr =>
    intro position depth arena
    have hroots : (slotsOf share position (depth + 1) below).map Slot.label =
        below.map Tree.label := by simp [slotsOf]
    rw [placeAll_cons]
    refine ihb.trans ?_
    rw [labels_append, hroots, List.append_assoc, List.flatMap_cons, children_node]
    refine (ihr.append (labelsAll_perm_below below).symm).trans ?_
    rw [List.append_assoc]
    exact (List.perm_append_comm).append_left _

/-- The arena of a root alone. -/
def rootSlot (share : β → α) (label : β) : Arena β α := #[⟨label, 0, none, share label⟩]

theorem wellPlaced_rootSlot (share : β → α) (label : β) : (rootSlot share label).WellPlaced := by
  refine ⟨Nat.zero_lt_one, rfl, rfl, fun position hp hne => ?_⟩
  have : position < 1 := hp
  omega

/-- The arena of a tree before totals are added up. -/
def placed (share : β → α) (tree : Tree β) : Arena β α :=
  placeAll share [tree] 0 0 (rootSlot share tree.label)

theorem skeleton_arrange [Add α] (share : β → α) (tree : Tree β) :
    (tree.arrange share).skeleton = (tree.placed share).skeleton := skeleton_addUp _ _

/-- **The arena of a tree is well placed, and its slots have the labels of the tree.** -/
theorem wellPlaced_placed (share : β → α) (tree : Tree β) :
    (tree.placed share).WellPlaced ∧ (tree.placed share).labels.Perm tree.labels := by
  obtain ⟨hplaced, -⟩ := wellPlaced_placeAll share [tree] (wellPlaced_rootSlot share tree.label)
    fun i hi => by
      obtain rfl : i = 0 := by simpa using hi
      exact ⟨Nat.zero_lt_one, rfl⟩
  refine ⟨hplaced, (labels_placeAll share [tree]).trans ?_⟩
  obtain ⟨label, below⟩ := tree
  simp [rootSlot, Arena.labels]

theorem wellPlaced_arrange [Add α] (share : β → α) (tree : Tree β) :
    (tree.arrange share).WellPlaced ∧ (tree.arrange share).labels.Perm tree.labels := by
  obtain ⟨hplaced, hlabels⟩ := wellPlaced_placed share tree
  have hskeleton := skeleton_arrange share tree
  refine ⟨hplaced.congr hskeleton, ?_⟩
  rwa [Arena.labels_eq, hskeleton, ← Arena.labels_eq]

end Tree
end SampledProfile
