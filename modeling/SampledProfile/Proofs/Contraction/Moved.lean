/-
# The order of the nodes does not show in the tree

Walks over two tables that hold the same nodes in another order (`NodeTable.Moved`) meet the same nodes at
other positions (`meet_moved`), so they build the same.  What depends on the order besides is the sum of
all hits, and integers add up to the same.

* **`ofNodes_reordered`: nodes of which the first one lists its children contract to the same in any
  order that leaves it first, if hits are integers.**

Which fault a malformed list has may depend on the order, since ids are checked from the first node to the
last.
-/
import SampledProfile.Proofs.Contraction.Alike
import SampledProfile.Proofs.Contraction.Source
import SampledProfile.Proofs.NodeTable.Moved
import SampledProfile.Proofs.NodeTable.Totals

namespace SampledProfile
namespace Contraction

open Outcome NodeTable

section Walks

variable {α : Type} [Scalar α] {place : Nat → Nat} {table other : NodeTable α}

/-! ## 1. Walks -/

theorem childPositions_moved (h : Moved place table other) (node : Fields α) (id : Value α) :
    childPositions other node id = List.map place <$> childPositions table node id := by
  simp only [childPositions, h.findAll, map_bind]

theorem meet_moved (h : Moved place table other) (time : α) (keepNatives : Bool) (trail : Trail α)
    (position : Nat) :
    meet other time keepNatives trail (place position) =
      movedBy place <$> meet table time keepNatives trail position := by
  simp only [meet, nodeAt_eq, h.nodes, childPositions_moved h, map_bind, bind_map_left]
  refine bind_congr fun key => ?_
  split
  · rfl
  · simp only [map_bind, map_pure]
    rfl

theorem fromRoot_moved (h : Moved place table other) (time : α) (keepNatives : Bool) :
    fromRoot other time keepNatives = fromRoot table time keepNatives := by
  have hroot : other.nodeAt 0 = table.nodeAt 0 := by
    rw [nodeAt_eq, nodeAt_eq, ← h.nodes 0, h.first]
  simp only [fromRoot, hroot, h.findAll, bind_map_left, ← List.map_reverse, h.length,
    walk_of_meet (meet_moved h time keepNatives)]

/-- Where hits add up to the same, both contract to the same. -/
theorem ofTable_moved (h : Moved place table other) (htotal : other.totalHits = table.totalHits)
    (samples start finish : Value α) (keepNatives : Bool) :
    ofTable other samples start finish keepNatives =
      ofTable table samples start finish keepNatives := by
  simp only [ofTable, htotal, fromRoot_moved h, h.length]

end Walks

/-! ## 2. Lists -/

/-- **In whatever order the nodes stand behind the first, they contract to the same.** -/
theorem ofNodes_reordered {first : Fields Number} {rest others : List (Fields Number)}
    {samples start finish : Value Number} {keepNatives : Bool} {result : Contraction Number}
    (hchildren : (first.get "children").isNull = false)
    (hwhole : ∀ node ∈ first :: rest, WholeHits node) (h : others.Perm rest)
    (hresult : (ofNodes ((first :: rest).map .obj) samples start finish keepNatives).2 =
      .ok result) :
    (ofNodes ((first :: others).map .obj) samples start finish keepNatives).2 = .ok result := by
  obtain ⟨-, table, htable, hhits, -, hcontracts⟩ := ofNodes_eq_ok_iff.mp hresult
  obtain ⟨hnodes, hi⟩ := indexed_ofNodes htable
  have hperm : (first :: others).Perm (first :: rest) := h.cons first
  obtain ⟨other, hother⟩ := exists_ofNodes_iff.mpr ((exists_ofNodes_iff.mp ⟨table, htable⟩).perm hperm)
  obtain ⟨hnodes', hi'⟩ := indexed_ofNodes hother
  obtain ⟨place, hmoved⟩ : ∃ place, Moved place table other :=
    exists_moved hi hi' (by rwa [hnodes, hnodes']) (by rw [hnodes, hnodes']; rfl)
  obtain ⟨hfilled, hhits'⟩ := hmoved.fillHits samples
  have hlinked := fillChildren_fillHits_of_given table samples (by simp [hnodes])
    (by rw [hnodes]; exact hchildren)
  have hlinked' := fillChildren_fillHits_of_given other samples (by simp [hnodes'])
    (by rw [hnodes']; exact hchildren)
  have htotal : (other.fillHits samples).1.totalHits = (table.fillHits samples).1.totalHits :=
    totalHits_of_perm hfilled.perm (wholeHits_fillHits hi hhits (hnodes ▸ hwhole))
  refine ofNodes_eq_ok_iff.mpr ⟨List.cons_ne_nil _ _, other, hother, hhits'.trans hhits,
    by rw [hlinked'], ?_⟩
  rw [filledTable, hlinked] at hcontracts
  rw [filledTable, hlinked', ofTable_moved hfilled htotal]
  exact hcontracts

end Contraction
end SampledProfile
