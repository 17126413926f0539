/-
# Finite trees in a pool

A WAY goes from a node of a pool to a child at some index, from there to a child of that one, and so
on (`Pool.descend`).  What is below a node is a finite tree if every node is reached from there in
one way only (`Pool.IsTree`).

Along a way in a tree no node comes twice, so there are fewer steps than the pool has nodes
(`Pool.IsTree.length_lt`).  This is why `Pool.treeFrom`, which stops after so many levels, has

* every node that can be reached, and no other (`Pool.IsTree.mem_labels_treeFrom`);
* each of them once (`Pool.IsTree.nodup_treeFrom`);
* below each of them all its children in their order (`Pool.IsTree.unfolds_treeFrom`).

The other way around these three make a tree, so that one can tell (`Pool.isTree_iff`).
-/
import Mathlib.Data.Finset.Card
import Mathlib.Data.Finset.Range
import SampledProfile.Pool
import SampledProfile.Proofs.Forest

namespace SampledProfile

theorem Tree.labelsAll_eq_flatMap {β : Type} (trees : List (Tree β)) :
    Tree.labelsAll trees = trees.flatMap Tree.labels := by
  induction trees with
  | nil => rfl
  | cons tree rest ih => rw [Tree.labelsAll_cons, List.flatMap_cons, ih]

namespace Pool

variable {α : Type}

/-! ## 1. Ways -/

/-- The positions of the children of a node. -/
def childrenOf (pool : Pool α) (position : Nat) : List Nat :=
  (pool[position]?.map PoolNode.children).getD []

/-- Where a way leads to, which is a list of indices of children. -/
def descend (pool : Pool α) : List Nat → Nat → Option Nat
  | [], position => some position
  | index :: way, position => (pool.childrenOf position)[index]?.bind (pool.descend way)

/-- Can the second position be reached from the first? -/
def Reaches (pool : Pool α) (root position : Nat) : Prop :=
  ∃ way, pool.descend way root = some position

/-- What is below a position is a finite tree: it has nodes of the pool only, and there is one way
to each. -/
structure IsTree (pool : Pool α) (root : Nat) : Prop where
  valid : ∀ position, pool.Reaches root position → position < pool.size
  unique : ∀ way other position, pool.descend way root = some position →
    pool.descend other root = some position → way = other

variable {pool : Pool α} {root : Nat}

theorem descend_append (way other : List Nat) : ∀ position : Nat,
    pool.descend (way ++ other) position = (pool.descend way position).bind (pool.descend other) := by
  induction way with
  | nil => exact fun _ => rfl
  | cons index way ih =>
    intro position
    rw [List.cons_append, descend, descend]
    cases (pool.childrenOf position)[index]? with
    | none => rfl
    | some child => exact ih child

/-- Whoever is reached has its children reached. -/
theorem Reaches.child {position child : Nat} (h : pool.Reaches root position)
    (hchild : child ∈ pool.childrenOf position) : pool.Reaches root child := by
  obtain ⟨way, hway⟩ := h
  obtain ⟨index, hindex⟩ := List.mem_iff_getElem?.mp hchild
  refine ⟨way ++ [index], ?_⟩
  rw [descend_append, hway, Option.bind_some, descend, hindex]
  rfl

/-- **A way in a tree has fewer steps than the pool has nodes.** -/
theorem IsTree.length_lt (h : pool.IsTree root) {way : List Nat} {position : Nat}
    (hway : pool.descend way root = some position) : way.length < pool.size := by
  have hstops : ∀ steps, ∃ stop, pool.descend (way.take steps) root = some stop := fun steps => by
    rw [← List.take_append_drop steps way, descend_append] at hway
    obtain ⟨stop, hstop, -⟩ := Option.bind_eq_some_iff.mp hway
    exact ⟨stop, hstop⟩
  choose stop hstop using hstops
  have hmaps : ∀ steps ∈ Finset.range (way.length + 1), stop steps ∈ Finset.range pool.size :=
    fun steps _ => Finset.mem_range.mpr (h.valid _ ⟨_, hstop steps⟩)
  have hinjective : Set.InjOn stop (Finset.range (way.length + 1)) := by
    intro steps hsteps others hothers heq
    have hlt := Finset.mem_range.mp (Finset.mem_coe.mp hsteps)
    have hlt' := Finset.mem_range.mp (Finset.mem_coe.mp hothers)
    have htake := congrArg List.length (h.unique _ _ _ (hstop steps) (heq ▸ hstop others))
    rw [List.length_take, List.length_take] at htake
    omega
  have hcard := Finset.card_le_card_of_injOn stop hmaps hinjective
  rwa [Finset.card_range, Finset.card_range] at hcard

/-! ## 2. The tree below a position -/

theorem subtree_succ (pool : Pool α) (fuel position : Nat) : pool.subtree (fuel + 1) position =
    .node position ((pool.childrenOf position).map (pool.subtree fuel)) := rfl

@[simp] theorem label_subtree (pool : Pool α) (fuel position : Nat) :
    (pool.subtree fuel position).label = position := by
  cases fuel <;> rfl

theorem labels_subtree_succ (pool : Pool α) (fuel position : Nat) :
    (pool.subtree (fuel + 1) position).labels =
      position :: (pool.childrenOf position).flatMap fun child =>
        (pool.subtree fuel child).labels := by
  rw [subtree_succ, Tree.labels_node, Tree.labelsAll_eq_flatMap, List.flatMap_map]

/-- The tree has what is reached by ways that are not too long. -/
theorem mem_labels_subtree {position : Nat} : ∀ {fuel root : Nat},
    position ∈ (pool.subtree fuel root).labels ↔
      ∃ way, way.length ≤ fuel ∧ pool.descend way root = some position
  | 0, root => by
    have hleaf : (pool.subtree 0 root).labels = [root] := rfl
    rw [hleaf, List.mem_singleton]
    constructor
    · rintro rfl
      exact ⟨[], Nat.le_refl _, rfl⟩
    · rintro ⟨way, hlength, hway⟩
      obtain rfl : way = [] := List.length_eq_zero_iff.mp (Nat.le_zero.mp hlength)
      exact (Option.some.inj hway).symm
  | fuel + 1, root => by
    rw [labels_subtree_succ, List.mem_cons, List.mem_flatMap]
    constructor
    · rintro (rfl | ⟨child, hchild, hposition⟩)
      · exact ⟨[], Nat.zero_le _, rfl⟩
      · obtain ⟨way, hlength, hway⟩ := mem_labels_subtree.mp hposition
        obtain ⟨index, hindex⟩ := List.mem_iff_getElem?.mp hchild
        refine ⟨index :: way, Nat.succ_le_succ hlength, ?_⟩
        rw [descend, hindex]
        exact hway
    · rintro ⟨way, hlength, hway⟩
      cases way with
      | nil => exact .inl (Option.some.inj hway).symm
      | cons index way =>
        obtain ⟨child, hchild, hway⟩ := Option.bind_eq_some_iff.mp hway
        exact .inr ⟨child, List.mem_of_getElem? hchild,
          mem_labels_subtree.mpr ⟨way, Nat.le_of_succ_le_succ hlength, hway⟩⟩

/-- Where there is one way to every node, the tree has every node once. -/
theorem nodup_subtree : ∀ {fuel root : Nat},
    (∀ way other position, pool.descend way root = some position →
      pool.descend other root = some position → way = other) →
    (pool.subtree fuel root).labels.Nodup
  | 0, _, _ => List.nodup_singleton _
  | fuel + 1, root, h => by
    have hstep : ∀ {index child : Nat} {way : List Nat} {position : Nat},
        (pool.childrenOf root)[index]? = some child → pool.descend way child = some position →
          pool.descend (index :: way) root = some position := fun hchild hway => by
      rw [descend, hchild]
      exact hway
    rw [labels_subtree_succ, List.nodup_cons]
    constructor
    · intro hmem
      obtain ⟨child, hchild, hposition⟩ := List.mem_flatMap.mp hmem
      obtain ⟨way, -, hway⟩ := mem_labels_subtree.mp hposition
      obtain ⟨index, hindex⟩ := List.mem_iff_getElem?.mp hchild
      exact List.cons_ne_nil _ _ (h _ _ root (hstep hindex hway) (rfl : pool.descend [] root = _))
    · refine List.nodup_flatMap.mpr ⟨fun child hchild => ?_, ?_⟩
      · obtain ⟨index, hindex⟩ := List.mem_iff_getElem?.mp hchild
        refine nodup_subtree fun way other position hway hother => ?_
        exact (List.cons.inj (h _ _ position (hstep hindex hway) (hstep hindex hother))).2
      · refine List.pairwise_iff_getElem.mpr fun i j hi hj hij => ?_
        intro position hposition hother
        obtain ⟨way, -, hway⟩ := mem_labels_subtree.mp hposition
        obtain ⟨other, -, hother⟩ := mem_labels_subtree.mp hother
        have heq := h _ _ position (hstep (List.getElem?_eq_getElem hi) hway)
          (hstep (List.getElem?_eq_getElem hj) hother)
        exact absurd (List.cons.inj heq).1 (Nat.ne_of_lt hij)

/-- Every node of a tree has below it all the children that it has in the pool. -/
def Unfolds (pool : Pool α) (tree : Tree Nat) : Prop :=
  ∀ entry ∈ tree.flatten, entry.2 = pool.childrenOf entry.1

theorem unfolds_node {label : Nat} {below : List (Tree Nat)} :
    pool.Unfolds (.node label below) ↔
      below.map Tree.label = pool.childrenOf label ∧ ∀ tree ∈ below, pool.Unfolds tree := by
  have hall : ∀ trees : List (Tree Nat), (∀ entry ∈ Tree.flattenAll trees,
      entry.2 = pool.childrenOf entry.1) ↔ ∀ tree ∈ trees, pool.Unfolds tree := fun trees => by
    induction trees with
    | nil => simp [Tree.flattenAll]
    | cons tree rest ih =>
      rw [Tree.flattenAll, List.forall_mem_append, List.forall_mem_cons, ih]
      rfl
  rw [Unfolds, Tree.flatten, List.forall_mem_cons, hall]

/-- Where no way is too long, the tree unfolds what is below a position. -/
theorem unfolds_subtree : ∀ {fuel root : Nat},
    (∀ way position, pool.descend way root = some position → way.length < fuel) →
    pool.Unfolds (pool.subtree fuel root)
  | 0, root, h => absurd (h [] root rfl) (Nat.not_lt_zero _)
  | fuel + 1, root, h => by
    rw [subtree_succ, unfolds_node]
    constructor
    · simp [Function.comp_def]
    · intro tree htree
      obtain ⟨child, hchild, rfl⟩ := List.mem_map.mp htree
      obtain ⟨index, hindex⟩ := List.mem_iff_getElem?.mp hchild
      refine unfolds_subtree fun way position hway => ?_
      refine Nat.lt_of_succ_lt_succ (h (index :: way) position ?_)
      rw [descend, hindex]
      exact hway

/-- A step of a way goes to the root of a tree below. -/
theorem exists_below_of_descend {label index position : Nat} {way : List Nat}
    {below : List (Tree Nat)} (hunfolds : below.map Tree.label = pool.childrenOf label)
    (hway : pool.descend (index :: way) label = some position) :
    ∃ tree, below[index]? = some tree ∧ pool.descend way tree.label = some position := by
  obtain ⟨child, hchild, hway⟩ := Option.bind_eq_some_iff.mp hway
  rw [← hunfolds, List.getElem?_map] at hchild
  obtain ⟨tree, htree, rfl⟩ := Option.map_eq_some_iff.mp hchild
  exact ⟨tree, htree, hway⟩

/-- An unfolded tree has all that can be reached from its root. -/
theorem Unfolds.mem_labels {position : Nat} : ∀ {way : List Nat} {tree : Tree Nat},
    pool.Unfolds tree → pool.descend way tree.label = some position → position ∈ tree.labels
  | [], .node label below, _, hway => by
    obtain rfl : label = position := Option.some.inj hway
    exact List.mem_cons_self
  | index :: way, .node label below, h, hway => by
    obtain ⟨hbelow, htrees⟩ := unfolds_node.mp h
    obtain ⟨tree, htree, hway⟩ := exists_below_of_descend hbelow hway
    have hmem := List.mem_of_getElem? htree
    rw [Tree.labels_node, Tree.labelsAll_eq_flatMap]
    exact List.mem_cons_of_mem _
      (List.mem_flatMap.mpr ⟨tree, hmem, (htrees tree hmem).mem_labels hway⟩)

/-- If an unfolded tree has every node once, there is one way to each. -/
theorem Unfolds.unique {position : Nat} : ∀ {way other : List Nat} {tree : Tree Nat},
    pool.Unfolds tree → tree.labels.Nodup → pool.descend way tree.label = some position →
      pool.descend other tree.label = some position → way = other := by
  -- who has taken a step does not come back to the root
  have haway : ∀ {index label : Nat} {way : List Nat} {below : List (Tree Nat)},
      pool.Unfolds (.node label below) → (Tree.labels (.node label below)).Nodup →
        pool.descend (index :: way) label ≠ some label := by
    intro index label way below h hnodup hway
    obtain ⟨hbelow, htrees⟩ := unfolds_node.mp h
    obtain ⟨tree, htree, hway⟩ := exists_below_of_descend hbelow hway
    have hmem := List.mem_of_getElem? htree
    rw [Tree.labels_node, Tree.labelsAll_eq_flatMap, List.nodup_cons] at hnodup
    exact hnodup.1 (List.mem_flatMap.mpr ⟨tree, hmem, (htrees tree hmem).mem_labels hway⟩)
  intro way
  induction way with
  | nil =>
    rintro other ⟨label, below⟩ h hnodup hway hother
    obtain rfl : label = position := Option.some.inj hway
    cases other with
    | nil => rfl
    | cons index other => exact absurd hother (haway h hnodup)
  | cons index way ih =>
    rintro other ⟨label, below⟩ h hnodup hway hother
    cases other with
    | nil =>
      obtain rfl : label = position := Option.some.inj hother
      exact absurd hway (haway h hnodup)
    | cons step other =>
      obtain ⟨hbelow, htrees⟩ := unfolds_node.mp h
      obtain ⟨tree, htree, hway⟩ := exists_below_of_descend hbelow hway
      obtain ⟨beside, hbeside, hother⟩ := exists_below_of_descend hbelow hother
      rw [Tree.labels_node, Tree.labelsAll_eq_flatMap, List.nodup_cons,
        List.nodup_flatMap] at hnodup
      obtain ⟨-, hown, hapart⟩ := hnodup
      obtain ⟨hindex, rfl⟩ := List.getElem?_eq_some_iff.mp htree
      obtain ⟨hstep, rfl⟩ := List.getElem?_eq_some_iff.mp hbeside
      have hmem := (htrees _ (List.getElem_mem hindex)).mem_labels hway
      have hmem' := (htrees _ (List.getElem_mem hstep)).mem_labels hother
      obtain rfl : index = step := by
        rw [List.pairwise_iff_getElem] at hapart
        rcases Nat.lt_trichotomy index step with hlt | heq | hgt
        · exact absurd hmem' (hapart index step hindex hstep hlt hmem)
        · exact heq
        · exact absurd hmem (hapart step index hstep hindex hgt hmem')
      rw [ih (htrees _ (List.getElem_mem hindex)) (hown _ (List.getElem_mem hindex)) hway hother]

/-! ## 3. Finite trees -/

namespace IsTree

variable (h : pool.IsTree root)

include h

/-- **The tree below a position has all that can be reached from there.** -/
theorem mem_labels_treeFrom {position : Nat} :
    position ∈ (pool.treeFrom root).labels ↔ pool.Reaches root position := by
  rw [treeFrom, mem_labels_subtree]
  constructor
  · rintro ⟨way, -, hway⟩
    exact ⟨way, hway⟩
  · rintro ⟨way, hway⟩
    exact ⟨way, (h.length_lt hway).le, hway⟩

theorem nodup_treeFrom : (pool.treeFrom root).labels.Nodup := nodup_subtree h.unique

theorem unfolds_treeFrom : pool.Unfolds (pool.treeFrom root) :=
  unfolds_subtree fun _ _ hway => h.length_lt hway

end IsTree

/-- **What is below a position is a finite tree if it is a tree when it is unfolded.** -/
theorem isTree_iff : pool.IsTree root ↔
    (pool.treeFrom root).labels.Nodup ∧ pool.Unfolds (pool.treeFrom root) ∧
      ∀ label ∈ (pool.treeFrom root).labels, label < pool.size := by
  constructor
  · exact fun h => ⟨h.nodup_treeFrom, h.unfolds_treeFrom,
      fun label hlabel => h.valid label (h.mem_labels_treeFrom.mp hlabel)⟩
  · rintro ⟨hnodup, hunfolds, hvalid⟩
    have hroot : (pool.treeFrom root).label = root := label_subtree _ _ _
    refine ⟨?_, fun way other position hway hother => ?_⟩
    · rintro position ⟨way, hway⟩
      exact hvalid position (hunfolds.mem_labels (by rwa [hroot]))
    · exact hunfolds.unique hnodup (by rwa [hroot]) (by rwa [hroot])

instance (pool : Pool α) (root : Nat) : Decidable (pool.IsTree root) :=
  have : Decidable (pool.Unfolds (pool.treeFrom root)) :=
    inferInstanceAs (Decidable (∀ entry ∈ _, _ = _))
  decidable_of_iff _ isTree_iff.symm

end Pool
end SampledProfile
