/-
# Dropping nodes loses no weight

Let every label of a forest have a weight.  When labels are dropped (`Tree.contractAll`), each label
that is left takes over the weight of the dropped labels on the surface below it, so what is left of
a tree whose root is kept weighs what the tree weighed (`Tree.sum_contractAll`).  That holds of every
subtree whose root is kept, as dropping takes it to a subtree of what is left
(`Tree.mem_subtreesAll_contractAll`).

The time of the calls is such a weight: `Contraction.exists_kept_of_subtree` and
`Contraction.exists_subtree_of_kept` say so of the tree that an accepted list is contracted to.
-/
import Mathlib.Algebra.BigOperators.Group.List.Basic
import Mathlib.Algebra.Ring.Rat
import Mathlib.Tactic.Abel
import SampledProfile.Numeric.Exact
import SampledProfile.Proofs.Contraction.Contracted

namespace SampledProfile
namespace Tree

variable {β γ : Type}

/-! ## 1. Forests -/

theorem subtreesAll_mapAll (f : β → γ) (trees : List (Tree β)) :
    subtreesAll (mapAll f trees) = (subtreesAll trees).map (map f) := by
  induction trees using forest_induction with
  | nil => rfl
  | cons label below rest ihb ihr => simp [mapAll, map, subtreesAll, subtrees, ihb, ihr]

theorem labels_map (f : β → γ) (tree : Tree β) : (tree.map f).labels = tree.labels.map f := by
  obtain ⟨label, below⟩ := tree
  rw [map, labels_node, labels_node, labelsAll_mapAll, List.map_cons]

section Dropping

variable (elided : β → Bool)

/-- A subtree whose root is kept is a subtree of what is left, without the labels it loses. -/
theorem mem_subtreesAll_contractAll {top : β} {below : List (Tree β)} (hkept : elided top = false)
    (trees : List (Tree β)) (h : .node top below ∈ subtreesAll trees) :
    .node (top, surfaceAll elided below) (contractAll elided below) ∈
      subtreesAll (contractAll elided trees) := by
  induction trees using forest_induction with
  | nil => cases h
  | cons label inner rest ihb ihr =>
    simp only [subtreesAll, subtrees, List.mem_append, List.mem_cons] at h
    simp only [contractAll, contract, subtreesAll_append, List.mem_append]
    rcases h with (heq | h) | h
    · obtain ⟨rfl, rfl⟩ := Tree.node.inj heq
      right
      simp [hkept, subtreesAll, subtrees]
    · right
      cases elided label with
      | true => exact ihb h
      | false =>
        simp only [Bool.false_eq_true, if_false, subtreesAll, subtrees, List.append_nil,
          List.mem_cons]
        exact .inr (ihb h)
    · exact .inl (ihr h)

variable {α : Type} [AddCommMonoid α] (weight : β → α)

/-- The weight of a label that is left, with that of the dropped labels it notes. -/
def heaped (pair : β × List β) : α :=
  weight pair.1 + ((pair.2.filter elided).map weight).sum

/-- **What is left weighs what there was, but for the dropped labels that nothing kept stands
above.** -/
theorem sum_contractAll (trees : List (Tree β)) :
    ((labelsAll (contractAll elided trees)).map (heaped elided weight)).sum +
        (((surfaceAll elided trees).filter elided).map weight).sum =
      ((labelsAll trees).map weight).sum := by
  induction trees using forest_induction with
  | nil => simp [contractAll, surfaceAll]
  | cons label below rest ihb ihr =>
    simp only [contractAll, contract, surfaceAll, surface, labelsAll_append, labelsAll_cons,
      labels_node, List.filter_append, List.map_append, List.sum_append, List.map_cons,
      List.sum_cons]
    rw [← ihb, ← ihr]
    cases hlabel : elided label with
    | true =>
      simp only [if_true, List.filter_cons, hlabel, List.map_cons, List.sum_cons]
      abel
    | false =>
      simp only [Bool.false_eq_true, if_false, labelsAll_cons, labelsAll_nil, labels_node,
        List.append_nil, List.filter_cons, List.filter_nil, hlabel, List.map_cons, List.map_nil,
        List.sum_cons, List.sum_nil, heaped]
      abel

/-- A tree whose root is kept weighs what is left of it. -/
theorem sum_contract_node {top : β} (hkept : elided top = false) (below : List (Tree β)) :
    ((labels (.node (top, surfaceAll elided below) (contractAll elided below))).map
        (heaped elided weight)).sum = ((labels (.node top below)).map weight).sum := by
  have hsum := sum_contractAll elided weight [.node top below]
  simpa [contractAll, contract, surfaceAll, surface, hkept] using hsum

end Dropping
end Tree

namespace Contraction

open SampledProfile.Tree

/-! ## 2. The time of calls -/

theorem self_absorbAll (call : Call Rat) (nodes : List (SourceNode Rat)) :
    (absorbAll call nodes).self =
      call.self + ((nodes.filter (·.elided)).map (·.call.self)).sum := by
  unfold absorbAll
  induction nodes.filter (·.elided) generalizing call with
  | nil => exact (add_zero call.self).symm
  | cons node rest ih =>
    have habsorb : (call.absorb node.call.self).self = call.self + node.call.self := rfl
    rw [List.foldl_cons, ih, List.map_cons, List.sum_cons, habsorb]
    exact add_assoc call.self node.call.self _

/-- The time of all calls of some source nodes. -/
def weightOf (source : Tree (SourceNode Rat)) : Rat := (source.labels.map (·.call.self)).sum

/-- The time of all calls of a call tree. -/
def selfSum (tree : CallTree Rat) : Rat := (tree.labels.map Call.self).sum

/-- The calls of what is left of a source tree have the time of the source tree. -/
theorem selfSum_of_kept {node : SourceNode Rat} (hkept : node.elided = false)
    (below : List (Tree (SourceNode Rat))) :
    selfSum (map (fun pair => absorbAll pair.1.call pair.2)
      (.node (node, surfaceAll (·.elided) below) (contractAll (·.elided) below))) =
      weightOf (.node node below) := by
  have hself : ∀ pair : SourceNode Rat × List (SourceNode Rat),
      (absorbAll pair.1.call pair.2).self = heaped (·.elided) (·.call.self) pair :=
    fun pair => self_absorbAll pair.1.call pair.2
  rw [selfSum, labels_map, List.map_map]
  simp only [Function.comp_def, hself]
  exact sum_contract_node _ _ hkept below

variable {source : Tree (SourceNode Rat)}

/-- **The calls of the whole tree have the time of all source nodes.** -/
theorem selfSum_grown (hroot : source.label.elided = false) :
    selfSum (grown (.leaf source.label.call) source.children) = weightOf source := by
  obtain ⟨root, forest⟩ := source
  exact selfSum_of_kept hroot forest

theorem subtrees_grown (hroot : source.label.elided = false) :
    (grown (.leaf source.label.call) source.children).subtrees =
      (subtreesAll (contractAll (·.elided) [source])).map
        (map fun pair => absorbAll pair.1.call pair.2) := by
  rw [← subtreesAll_mapAll, mapAll_contractAll_eq hroot, subtreesAll, subtreesAll, List.append_nil]

/-- **The subtree of a kept node is left as one with its id and of the same weight.** -/
theorem exists_kept_of_subtree (hroot : source.label.elided = false) {node : SourceNode Rat}
    {below : List (Tree (SourceNode Rat))} (h : .node node below ∈ source.subtrees)
    (hkept : node.elided = false) :
    ∃ tree ∈ (grown (.leaf source.label.call) source.children).subtrees,
      tree.label.id = node.call.id ∧ selfSum tree = weightOf (.node node below) := by
  refine ⟨_, ?_, ?_, selfSum_of_kept hkept below⟩
  · rw [subtrees_grown hroot]
    exact List.mem_map_of_mem (mem_subtreesAll_contractAll _ hkept [source]
      (by simpa [subtreesAll] using h))
  · exact id_absorbAll _ _

/-- **Whatever is left is left of the subtree of a kept node.** -/
theorem exists_subtree_of_kept (hroot : source.label.elided = false) {tree : CallTree Rat}
    (h : tree ∈ (grown (.leaf source.label.call) source.children).subtrees) :
    ∃ node below, .node node below ∈ source.subtrees ∧ node.elided = false ∧
      tree.label.id = node.call.id ∧ selfSum tree = weightOf (.node node below) := by
  rw [subtrees_grown hroot] at h
  obtain ⟨⟨pair, inner⟩, hmem, rfl⟩ := List.mem_map.mp h
  obtain ⟨hkept, below, hbelow, hsurface, rfl⟩ := of_mem_subtreesAll_contractAll _ _ hmem
  obtain ⟨node, labels⟩ := pair
  obtain rfl : labels = surfaceAll (·.elided) below := hsurface
  refine ⟨node, below, by simpa [subtreesAll] using hbelow, hkept, ?_, ?_⟩
  · exact id_absorbAll _ _
  · exact selfSum_of_kept hkept below

end Contraction
end SampledProfile
