/-
# Where the nodes of a tree stand in its arena

A forest is LAID OUT in an arena from a position on (`Arena.Laid`) when its roots stand there side
by side in their order, and the children of each, which are laid out in the same way, are exactly the
slots that name it as their parent.

* `Tree.laid_placeAll`: laying out lays out, and gives no other slot a child;
* `Tree.laid_placed`: so the arena of a tree has the tree laid out from the first position on;
* `Arena.Laid.exists_subtree`: every slot of it is the root of one of the tree's subtrees, and
  `Arena.Laid.exists_position`: every subtree has its place.
-/
import SampledProfile.Proofs.Contraction.Nearest
import SampledProfile.Proofs.Replay.Paths

namespace SampledProfile
namespace Arena

variable {β α : Type}

/-! ## 1. Children -/

theorem mem_children_iff {arena : Arena β α} {position other : Nat} :
    other ∈ arena.children position ↔
      other < arena.size ∧ arena.parent? other = some position := by
  simp [children]

theorem children_congr {arena other : Arena β α} (h : arena.skeleton = other.skeleton)
    (position : Nat) : arena.children position = other.children position := by
  have hparent : ∀ child, arena.parent? child = other.parent? child := fun child => by
    rw [parent?_eq, h, ← parent?_eq]
  simp only [children, size_eq_of_skeleton h, hparent]

/-- Whoever names no slot that is there has no child there. -/
theorem WellPlaced.lt_of_mem_children {arena : Arena β α} (h : arena.WellPlaced)
    {position other : Nat} (hmem : other ∈ arena.children position) : position < other := by
  obtain ⟨hlt, hparent⟩ := mem_children_iff.mp hmem
  exact h.lt_of_parent hlt hparent

theorem WellPlaced.children_of_size_le {arena : Arena β α} (h : arena.WellPlaced) {position : Nat}
    (hle : arena.size ≤ position) : arena.children position = [] := by
  refine List.eq_nil_iff_forall_not_mem.mpr fun other hmem => ?_
  have hlt := h.lt_of_mem_children hmem
  have hother := (mem_children_iff.mp hmem).1
  omega

/-- Slots at the end that name one position as their parent are its children, after those it has. -/
theorem children_append (arena : Arena β α) {slots : List (Slot β α)} {above : Nat}
    (hslots : ∀ slot ∈ slots, slot.parent = some above) (position : Nat) :
    Arena.children (arena ++ slots) position = arena.children position ++
      if position = above then List.range' arena.size slots.length else [] := by
  have hsize : (arena ++ slots).size = arena.size + slots.length := by
    rw [← Array.length_toList, Array.toList_appendList, List.length_append, Array.length_toList]
  have hrange : List.range (arena ++ slots).size =
      List.range arena.size ++ List.range' arena.size slots.length := by
    rw [hsize, List.range_eq_range', List.range_eq_range', ← List.range'_append_1, Nat.zero_add]
  rw [children, hrange, List.filter_append]
  congr 1
  · refine List.filter_congr fun other hother => ?_
    rw [parent?, getElem?_append_list, if_pos (List.mem_range.mp hother), ← parent?]
  · have hparent : ∀ other ∈ List.range' arena.size slots.length,
        Arena.parent? (arena ++ slots) other = some above := by
      intro other hother
      obtain ⟨hle, hlt⟩ := List.mem_range'_1.mp hother
      have hget : slots[other - arena.size]? = some slots[other - arena.size] :=
        List.getElem?_eq_getElem (by omega)
      rw [parent?, getElem?_append_list, if_neg (by omega), hget, Option.bind_some]
      exact hslots _ (List.getElem_mem _)
    split
    · rename_i heq
      exact List.filter_eq_self.mpr fun other hother => by simp [hparent other hother, heq]
    · rename_i hne
      refine List.filter_eq_nil_iff.mpr fun other hother => ?_
      rw [hparent other hother]
      simpa using fun heq => hne (Eq.symm heq)

/-! ## 2. Forests laid out -/

/-- The trees stand in the arena from the position on, at the depth. -/
inductive Laid (arena : Arena β α) : List (Tree β) → Nat → Nat → Prop
  | nil (position depth : Nat) : Laid arena [] position depth
  | cons {label : β} {below rest : List (Tree β)} {position depth first : Nat} :
      arena.labels[position]? = some label → arena.depth position = depth →
      arena.children position = List.range' first below.length →
      Laid arena below first (depth + 1) → Laid arena rest (position + 1) depth →
      Laid arena (.node label below :: rest) position depth

namespace Laid

variable {arena other : Arena β α} {trees : List (Tree β)} {position depth : Nat}

/-- What stands from some position on stays laid out when nothing changes from there on. -/
theorem frame (h : arena.Laid trees position depth) (hwell : arena.WellPlaced) {low : Nat}
    (hlow : low ≤ position) (hsame : ∀ place, low ≤ place → place < arena.size →
      other.labels[place]? = arena.labels[place]? ∧ other.depth place = arena.depth place ∧
        other.children place = arena.children place) : other.Laid trees position depth := by
  induction h with
  | nil => exact .nil _ _
  | @cons label below rest position depth first hlabel hdepth hchildren hbelow hrest ihb ihr =>
    obtain ⟨hl, hd, hc⟩ := hsame position hlow (lt_size_of_label hlabel)
    refine .cons (hl.trans hlabel) (hd.trans hdepth) (hc.trans hchildren) ?_
      (ihr (Nat.le_succ_of_le hlow))
    cases below with
    | nil => exact .nil _ _
    | cons child others =>
      have hfirst : first ∈ arena.children position := by
        rw [hchildren]
        simp
      exact ihb (Nat.le_trans hlow (Nat.le_of_lt (hwell.lt_of_mem_children hfirst)))

/-- The arena without its totals is all that counts. -/
theorem congr (h : arena.Laid trees position depth) (heq : other.skeleton = arena.skeleton) :
    other.Laid trees position depth := by
  induction h with
  | nil => exact .nil _ _
  | cons hlabel hdepth hchildren _ _ ihb ihr =>
    refine .cons ?_ ?_ ((children_congr heq _).trans hchildren) ihb ihr
    · rw [labels_eq, heq, ← labels_eq, hlabel]
    · rw [depth_eq, heq, ← depth_eq, hdepth]

/-- The first of some neighbours stands first. -/
theorem label_first {tree : Tree β} {rest : List (Tree β)}
    (h : arena.Laid (tree :: rest) position depth) : arena.labels[position]? = some tree.label := by
  cases h with
  | cons hlabel _ _ _ _ => exact hlabel

/-- Each of some neighbours is laid out where it stands. -/
theorem getElem (h : arena.Laid trees position depth) {index : Nat} (hindex : index < trees.length) :
    arena.Laid [trees[index]] (position + index) depth := by
  induction h generalizing index with
  | nil => exact absurd hindex (Nat.not_lt_zero index)
  | cons hlabel hdepth hchildren hbelow _ _ ihr =>
    cases index with
    | zero => exact .cons hlabel hdepth hchildren hbelow (.nil _ _)
    | succ index =>
      have hlt : index < _ := Nat.lt_of_succ_lt_succ hindex
      have hrest := ihr hlt
      rwa [Nat.add_assoc, Nat.add_comm 1 index] at hrest

/-- Every subtree has its place. -/
theorem exists_position (h : arena.Laid trees position depth) :
    ∀ subtree ∈ Tree.subtreesAll trees, ∃ place depth, place < arena.size ∧
      arena.Laid [subtree] place depth := by
  induction h with
  | nil => simp [Tree.subtreesAll]
  | @cons label below rest position depth first hlabel hdepth hchildren hbelow hrest ihb ihr =>
    intro subtree hsubtree
    simp only [Tree.subtreesAll, Tree.subtrees, List.cons_append, List.mem_cons,
      List.mem_append] at hsubtree
    rcases hsubtree with rfl | hsubtree | hsubtree
    · exact ⟨position, depth, lt_size_of_label hlabel, .cons hlabel hdepth hchildren hbelow (.nil _ _)⟩
    · exact ihb subtree hsubtree
    · exact ihr subtree hsubtree

end Laid
end Arena

namespace Tree

open Arena

variable {β α : Type}

/-! ## 3. Laying out -/

/-- Trees whose roots stand in an arena from a position on, and nothing below them yet. -/
structure Rooted (trees : List (Tree β)) (position depth : Nat) (arena : Arena β α) : Prop where
  stand : StandAt trees position depth arena
  labels : ∀ i (h : i < trees.length), arena.labels[position + i]? = some trees[i].label
  childless : ∀ i < trees.length, arena.children (position + i) = []

theorem Rooted.tail {tree : Tree β} {rest : List (Tree β)} {position depth : Nat}
    {arena : Arena β α} (h : Rooted (tree :: rest) position depth arena) :
    Rooted rest (position + 1) depth arena := by
  have hshift : ∀ i, position + 1 + i = position + (i + 1) := fun i => by omega
  constructor
  · intro i hi
    rw [hshift]
    exact h.stand (i + 1) (Nat.succ_lt_succ hi)
  · intro i hi
    rw [hshift]
    exact h.labels (i + 1) (Nat.succ_lt_succ hi)
  · intro i hi
    rw [hshift]
    exact h.childless (i + 1) (Nat.succ_lt_succ hi)

theorem children_slotsOf (share : β → α) (arena : Arena β α) (above depth : Nat)
    (trees : List (Tree β)) (position : Nat) :
    Arena.children (arena ++ slotsOf share above depth trees) position =
      arena.children position ++
        if position = above then List.range' arena.size trees.length else [] := by
  have hparent : ∀ slot ∈ slotsOf share above depth trees, slot.parent = some above := by
    simp [slotsOf]
  rw [children_append arena hparent, slotsOf, List.length_map]

/-- The slots for what is below a position are the roots of it. -/
theorem rooted_slotsOf (share : β → α) {arena : Arena β α} (hwell : arena.WellPlaced)
    {position depth : Nat} (hp : position < arena.size) (trees : List (Tree β)) :
    Rooted trees arena.size depth (arena ++ slotsOf share position depth trees) := by
  refine ⟨standAt_slotsOf share position depth trees arena, fun i hi => ?_, fun i hi => ?_⟩
  · rw [labels_append, List.getElem?_append_right (by simp [Arena.labels])]
    simp [Arena.labels, slotsOf, hi]
  · rw [children_slotsOf, hwell.children_of_size_le (by omega), if_neg (by omega)]
    rfl

/-- **Laying out lays out, and gives children to no other slot that is there.** -/
theorem laid_placeAll (share : β → α) (trees : List (Tree β)) :
    ∀ {position depth : Nat} {arena : Arena β α}, arena.WellPlaced →
      Rooted trees position depth arena →
      (placeAll share trees position depth arena).Laid trees position depth ∧
        ∀ place < arena.size, place < position ∨ position + trees.length ≤ place →
          (placeAll share trees position depth arena).children place = arena.children place := by
  induction trees using forest_induction with
  | nil => exact fun _ _ => ⟨.nil _ _, fun _ _ _ => rfl⟩
  | cons label below rest ihb ihr =>
    intro position depth arena hwell hroots
    rw [placeAll_cons]
    obtain ⟨hp, hdepth⟩ : position < arena.size ∧ arena.depth position = depth :=
      hroots.stand 0 (Nat.zero_lt_succ _)
    have hlabel : arena.labels[position]? = some label := hroots.labels 0 (Nat.zero_lt_succ _)
    have hchildless : arena.children position = [] := hroots.childless 0 (Nat.zero_lt_succ _)
    obtain ⟨hrestLaid, hrestChildren⟩ := ihr hwell hroots.tail
    obtain ⟨hrestWell, hrestExtends⟩ := wellPlaced_placeAll share rest hwell hroots.tail.stand
    generalize placeAll share rest (position + 1) depth arena = laid at *
    have hlt : position < laid.size := Nat.lt_of_lt_of_le hp hrestExtends.1
    have hslots : WellPlaced (laid ++ slotsOf share position (depth + 1) below) := by
      rw [← hdepth, ← hrestExtends.depth_eq hp]
      exact wellPlaced_slotsOf share hrestWell hlt below
    have hbelowRoots : Rooted below laid.size (depth + 1)
        (laid ++ slotsOf share position (depth + 1) below) :=
      rooted_slotsOf share hrestWell hlt below
    obtain ⟨hbelowLaid, hbelowChildren⟩ := ihb hslots hbelowRoots
    obtain ⟨-, hbelowExtends⟩ := wellPlaced_placeAll share below hslots hbelowRoots.stand
    have hextends := (extends_append laid (slotsOf share position (depth + 1) below)).trans
      hbelowExtends
    generalize placeAll share below laid.size (depth + 1)
      (laid ++ slotsOf share position (depth + 1) below) = final at *
    -- of what is there only the node itself gets children, and these are the new slots
    have hchildren : ∀ place < laid.size, final.children place = laid.children place ++
        if place = position then List.range' laid.size below.length else [] :=
      fun place hplace => by
        rw [hbelowChildren place
          (Nat.lt_of_lt_of_le hplace (extends_append laid _).1) (.inl hplace), children_slotsOf]
    constructor
    · refine .cons ?_ ?_ ?_ hbelowLaid (hrestLaid.frame hrestWell (Nat.le_refl _) ?_)
      · rw [hextends.label_eq hlt, hrestExtends.label_eq hp, hlabel]
      · rw [hextends.depth_eq hlt, hrestExtends.depth_eq hp, hdepth]
      · rw [hchildren position hlt, hrestChildren position hp (.inl (Nat.lt_succ_self _)),
          hchildless, if_pos rfl, List.nil_append]
      · intro place hle hplace
        refine ⟨hextends.label_eq hplace, hextends.depth_eq hplace, ?_⟩
        rw [hchildren place hplace, if_neg (by omega), List.append_nil]
    · intro place hplace hout
      rw [List.length_cons] at hout
      rw [hchildren place (Nat.lt_of_lt_of_le hplace hrestExtends.1), if_neg (by omega),
        List.append_nil, hrestChildren place hplace (by omega)]

theorem rooted_rootSlot (share : β → α) (tree : Tree β) :
    Rooted [tree] 0 0 (rootSlot share tree.label) := by
  have hzero : ∀ {i : Nat}, i < [tree].length → i = 0 := fun hi => by simpa using hi
  refine ⟨fun i hi => ?_, fun i hi => ?_, fun i hi => ?_⟩ <;> obtain rfl := hzero hi
  · exact ⟨Nat.zero_lt_one, rfl⟩
  · rfl
  · refine List.eq_nil_iff_forall_not_mem.mpr fun other hmem => ?_
    have hother : other < 1 := (mem_children_iff.mp hmem).1
    have hlt := (wellPlaced_rootSlot share tree.label).lt_of_mem_children hmem
    omega

/-- **The arena of a tree has the tree laid out from the first position on.** -/
theorem laid_placed (share : β → α) (tree : Tree β) : (tree.placed share).Laid [tree] 0 0 :=
  (laid_placeAll share [tree] (wellPlaced_rootSlot share tree.label) (rooted_rootSlot share tree)).1

theorem laid_arrange [Add α] (share : β → α) (tree : Tree β) :
    (tree.arrange share).Laid [tree] 0 0 :=
  (laid_placed share tree).congr (skeleton_arrange share tree)

theorem mem_subtreesAll_of_mem {trees : List (Tree β)} {tree : Tree β} (h : tree ∈ trees) :
    tree ∈ subtreesAll trees := by
  induction trees with
  | nil => cases h
  | cons first rest ih =>
    rw [subtreesAll, List.mem_append]
    rcases List.mem_cons.mp h with rfl | h
    · obtain ⟨label, below⟩ := tree
      exact .inl List.mem_cons_self
    · exact .inr (ih h)

end Tree

/-- Every slot is the root of one of the subtrees. -/
theorem Arena.Laid.exists_subtree {β α : Type} {arena : Arena β α} (hwell : arena.WellPlaced)
    {tree : Tree β} (h : arena.Laid [tree] 0 0) : ∀ place < arena.size,
      ∃ subtree ∈ Tree.subtreesAll [tree], ∃ depth, arena.Laid [subtree] place depth := by
  refine hwell.induction ?_ fun place above hp hlt hparent hdepth ih => ?_
  · exact ⟨tree, Tree.mem_subtreesAll_of_mem List.mem_cons_self, 0, h⟩
  · obtain ⟨⟨label, below⟩, hsubtree, depth, hlaid⟩ := ih
    cases hlaid with
    | @cons _ _ _ _ _ first hlabel hdepth hchildren hbelow hrest =>
      have hmem : place ∈ arena.children above := mem_children_iff.mpr ⟨hp, hparent⟩
      rw [hchildren, List.mem_range'_1] at hmem
      have hindex : place - first < below.length := by omega
      refine ⟨below[place - first], ?_, depth + 1, ?_⟩
      · exact (Tree.sublists_of_mem_subtreesAll [tree] hsubtree).1.subset
          (Tree.mem_subtreesAll_of_mem (List.getElem_mem hindex))
      · have hchild := hbelow.getElem hindex
        rwa [Nat.add_sub_cancel' hmem.1] at hchild

/-- **The children of a slot have positions side by side.** -/
theorem Arena.Laid.exists_first {β α : Type} {arena : Arena β α} (hwell : arena.WellPlaced)
    {tree : Tree β} (h : arena.Laid [tree] 0 0) {place : Nat} {label : β}
    (hlabel : arena.labels[place]? = some label) : ∃ below first,
      (label, below) ∈ tree.flatten ∧ arena.children place = List.range' first below.length ∧
        ∀ offset child, below[offset]? = some child →
          arena.labels[first + offset]? = some child := by
  obtain ⟨⟨other, below⟩, hsubtree, depth, hlaid⟩ :=
    h.exists_subtree hwell place (lt_size_of_label hlabel)
  cases hlaid with
  | @cons _ _ _ _ _ first hother _ hchildren hbelow _ =>
    obtain rfl := Option.some.inj (hlabel.symm.trans hother)
    refine ⟨below.map Tree.label, first, ?_, by rw [hchildren, List.length_map], ?_⟩
    · have hflatten := Tree.flattenAll_eq [tree]
      rw [Tree.flattenAll, Tree.flattenAll, List.append_nil] at hflatten
      rw [hflatten]
      exact List.mem_map.mpr ⟨_, hsubtree, rfl⟩
    · intro offset child hchild
      rw [List.getElem?_map] at hchild
      obtain ⟨subtree, hget, rfl⟩ := Option.map_eq_some_iff.mp hchild
      obtain ⟨hoffset, rfl⟩ := List.getElem?_eq_some_iff.mp hget
      exact (hbelow.getElem hoffset).label_first

end SampledProfile
