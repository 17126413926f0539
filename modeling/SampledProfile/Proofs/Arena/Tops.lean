/-
# Top-level nodes

A TOP-LEVEL node of a tree is a child of the root.  Every node but the root lies at or below just
one of them, and the root is said to lie below itself (`Arena.IsTop`).

`Arena.topFrom` goes up until the next step would be the root.  With as many steps as there are
nodes it finds the top-level node, and nothing else is one (`WellPlaced.topFrom_eq_iff`): the
top-level node of a node is where its path begins (`WellPlaced.head?_path_of_isTop`).
-/
import Mathlib.Logic.Relation
import SampledProfile.Proofs.Replay.Paths

namespace SampledProfile
namespace Arena

variable {β α : Type} {arena : Arena β α}

/-- The second node is the parent of the first. -/
def IsParent (arena : Arena β α) (below above : Nat) : Prop := arena.parent? below = some above

/-- The top-level node at or above a node is the one whose parent is the root; the root has itself.
-/
def IsTop (arena : Arena β α) (node top : Nat) : Prop :=
  node = 0 ∧ top = 0 ∨
    arena.parent? top = some 0 ∧ Relation.ReflTransGen arena.IsParent node top

/-! ## 1. Only one -/

/-- Only nodes have parents. -/
theorem lt_size_of_parent {position above : Nat} (h : arena.parent? position = some above) :
    position < arena.size := by
  obtain ⟨slot, hslot, -⟩ := Option.bind_eq_some_iff.mp h
  exact (Array.getElem?_eq_some_iff.mp hslot).1

namespace WellPlaced

/-- A node with a parent comes behind it and is one step farther from the root. -/
theorem of_parent (h : arena.WellPlaced) {position above : Nat}
    (hparent : arena.parent? position = some above) :
    above < position ∧ arena.depth position = arena.depth above + 1 := by
  have hp : position < arena.size := lt_size_of_parent hparent
  have hlt : above < position := h.lt_of_parent hp hparent
  obtain ⟨found, -, hfound, hdepth⟩ := h.parent position hp (Nat.zero_lt_of_lt hlt)
  rw [hparent] at hfound
  obtain rfl := Option.some.inj hfound
  exact ⟨hlt, hdepth⟩

/-- The path of a node begins with that of every node above it. -/
theorem path_prefix (h : arena.WellPlaced) {node above : Nat}
    (habove : Relation.ReflTransGen arena.IsParent node above) :
    arena.path above <+: arena.path node := by
  induction habove using Relation.ReflTransGen.head_induction_on with
  | refl => exact List.prefix_rfl
  | head hparent _ ih =>
    obtain ⟨-, hdepth⟩ := h.of_parent hparent
    rw [path_of_parent hparent hdepth]
    exact ih.trans (List.prefix_append _ _)

/-- Below a child of the root the paths begin with it. -/
theorem cons_prefix_path (h : arena.WellPlaced) {node top : Nat}
    (hroot : arena.parent? top = some 0) (habove : Relation.ReflTransGen arena.IsParent node top) :
    [top] <+: arena.path node := by
  obtain ⟨-, hdepth⟩ := h.of_parent hroot
  have hpath : arena.path top = [top] := by
    rw [path_of_parent hroot hdepth, h.path_root, List.nil_append]
  rw [← hpath]
  exact h.path_prefix habove

/-- The root is not below any of its children. -/
theorem ne_zero_of_below (h : arena.WellPlaced) {node top : Nat}
    (hroot : arena.parent? top = some 0) (habove : Relation.ReflTransGen arena.IsParent node top) :
    node ≠ 0 := by
  rintro rfl
  have hprefix := h.cons_prefix_path hroot habove
  rw [h.path_root] at hprefix
  simp at hprefix

/-- A path begins with the top-level node; only that of the root has no beginning. -/
theorem head?_path_of_isTop (h : arena.WellPlaced) {node top : Nat} (htop : arena.IsTop node top) :
    (arena.path node).head? = if node = 0 then none else some top := by
  rcases htop with ⟨rfl, rfl⟩ | ⟨hroot, habove⟩
  · rw [if_pos rfl, h.path_root, List.head?_nil]
  · obtain ⟨rest, hrest⟩ := h.cons_prefix_path hroot habove
    rw [if_neg (h.ne_zero_of_below hroot habove), ← hrest]
    rfl

theorem top_eq_zero_iff (h : arena.WellPlaced) {node top : Nat} (htop : arena.IsTop node top) :
    top = 0 ↔ node = 0 := by
  rcases htop with ⟨rfl, rfl⟩ | ⟨hroot, habove⟩
  · exact Iff.rfl
  · have hpos : 0 < top := (h.of_parent hroot).1
    have hne : node ≠ 0 := h.ne_zero_of_below hroot habove
    constructor
    · intro hzero
      omega
    · intro hzero
      exact absurd hzero hne

/-- No node has two top-level nodes. -/
theorem isTop_unique (h : arena.WellPlaced) {node top other : Nat} (htop : arena.IsTop node top)
    (hother : arena.IsTop node other) : top = other := by
  by_cases hzero : node = 0
  · rw [(h.top_eq_zero_iff htop).mpr hzero, (h.top_eq_zero_iff hother).mpr hzero]
  · have hfirst := h.head?_path_of_isTop htop
    have hsecond := h.head?_path_of_isTop hother
    rw [if_neg hzero] at hfirst hsecond
    exact Option.some.inj (hfirst.symm.trans hsecond)

/-- Nodes below the same child of the root have paths with a common beginning. -/
theorem shared_pos_of_isTop (h : arena.WellPlaced) {node other top : Nat} (hne : top ≠ 0)
    (htop : arena.IsTop node top) (hother : arena.IsTop other top) :
    0 < shared (arena.path node) (arena.path other) := by
  have hfirst := h.head?_path_of_isTop htop
  have hsecond := h.head?_path_of_isTop hother
  rw [if_neg fun hzero => hne ((h.top_eq_zero_iff htop).mpr hzero)] at hfirst
  rw [if_neg fun hzero => hne ((h.top_eq_zero_iff hother).mpr hzero)] at hsecond
  obtain ⟨rest, hrest⟩ := List.head?_eq_some_iff.mp hfirst
  obtain ⟨others, hothers⟩ := List.head?_eq_some_iff.mp hsecond
  rw [hrest, hothers, shared, if_pos rfl]
  exact Nat.succ_pos _

/-! ## 2. Going up -/

theorem depth_le (h : arena.WellPlaced) : ∀ position < arena.size,
    arena.depth position ≤ position := by
  refine h.induction ?_ fun position above _ hlt _ hdepth ih => ?_
  · exact Nat.le_of_eq h.rootDepth
  · omega

/-- With enough steps the top-level node is found. -/
theorem isTop_topFrom (h : arena.WellPlaced) : ∀ (fuel : Nat) {position : Nat},
    position < arena.size → arena.depth position ≤ fuel →
      arena.IsTop position (topFrom arena.parent? fuel position)
  | 0, position, hp, hfuel => by
    have hzero : position = 0 := h.eq_zero_of_depth hp (Nat.le_zero.mp hfuel)
    exact .inl ⟨hzero, hzero⟩
  | fuel + 1, position, hp, hfuel => by
    rcases Nat.eq_zero_or_pos position with rfl | hpos
    · rw [topFrom, h.rootParent]
      exact .inl ⟨rfl, rfl⟩
    obtain ⟨above, hlt, hparent, hdepth⟩ := h.parent position hp hpos
    have habove : above < arena.size := Nat.lt_trans hlt hp
    rw [topFrom, hparent]
    dsimp only
    rcases Nat.eq_zero_or_pos above with rfl | hinner
    · rw [h.rootParent]
      exact .inr ⟨hparent, .refl⟩
    · obtain ⟨higher, -, hhigher, -⟩ := h.parent above habove hinner
      rw [hhigher]
      rcases isTop_topFrom h fuel habove (by omega) with ⟨hzero, -⟩ | ⟨hroot, hpath⟩
      · omega
      · exact .inr ⟨hroot, .head hparent hpath⟩

/-- **Going up finds the top-level node of a node, and that is the only one.** -/
theorem topFrom_eq_iff (h : arena.WellPlaced) {node top : Nat} (hnode : node < arena.size) :
    topFrom arena.parent? arena.size node = top ↔ arena.IsTop node top := by
  have hfuel : arena.depth node ≤ arena.size :=
    Nat.le_trans (h.depth_le node hnode) (Nat.le_of_lt hnode)
  have hfound : arena.IsTop node (topFrom arena.parent? arena.size node) :=
    h.isTop_topFrom arena.size hnode hfuel
  constructor
  · rintro rfl
    exact hfound
  · exact h.isTop_unique hfound

end WellPlaced
end Arena
end SampledProfile
