/-
# Going through trees

A list of trees is a FOREST, and a forest is empty or a node with what is below it and what is
beside it.  Induction over forests in this form (`Tree.forest_induction`) carries what is proved
of trees: what holds of a tree holds of the forest of that tree alone.

* `Tree.labels` has the labels of a tree, each node before those below it, from the left;
* `Tree.walkOrder` has them in the order of a walk from the right: a node, then what is below its
  last child, and so on to the first.  Both have the same labels (`Tree.walkOrderAll_perm`);
* every label but those of the roots is the label of somebody's child
  (`Tree.labelsAll_perm_children`).
-/
import Mathlib.Data.List.Perm.Basic
import SampledProfile.Tree

namespace SampledProfile
namespace Tree

variable {β γ : Type}

@[simp] theorem label_node (label : β) (below : List (Tree β)) : (node label below).label = label :=
  rfl

@[simp] theorem children_node (label : β) (below : List (Tree β)) :
    (node label below).children = below := rfl

@[simp] theorem label_attach (tree child : Tree β) : (tree.attach child).label = tree.label := by
  cases tree
  rfl

@[simp] theorem label_relabel (f : β → β) (tree : Tree β) :
    (tree.relabel f).label = f tree.label := by
  cases tree
  rfl

/-! ## 1. Induction -/

/-- What holds of the empty forest, and of a node with what is below and beside it if it holds of
both, holds of every forest. -/
theorem forest_induction {P : List (Tree β) → Prop} (nil : P [])
    (cons : ∀ label below rest, P below → P rest → P (.node label below :: rest)) :
    ∀ trees, P trees
  | [] => nil
  | .node label below :: rest =>
    cons label below rest (forest_induction nil cons below) (forest_induction nil cons rest)

/-! ## 2. Labels -/

/-- The labels of a tree, each before those below it. -/
def labels (tree : Tree β) : List β := tree.flatten.map Prod.fst

/-- The labels of some trees in order. -/
def labelsAll (trees : List (Tree β)) : List β := (flattenAll trees).map Prod.fst

@[simp] theorem labels_node (label : β) (below : List (Tree β)) :
    labels (.node label below) = label :: labelsAll below := rfl

@[simp] theorem labelsAll_nil : labelsAll ([] : List (Tree β)) = [] := rfl

@[simp] theorem labelsAll_cons (tree : Tree β) (rest : List (Tree β)) :
    labelsAll (tree :: rest) = tree.labels ++ labelsAll rest := by
  simp [labelsAll, labels, flattenAll]

theorem labelsAll_append (trees others : List (Tree β)) :
    labelsAll (trees ++ others) = labelsAll trees ++ labelsAll others := by
  induction trees with
  | nil => rfl
  | cons tree rest ih => simp [ih]

mutual

/-- The labels of a tree as a walk meets them that goes to the last child first. -/
def walkOrder : Tree β → List β
  | .node label below => label :: walkOrderAll below

/-- The labels of some trees as such a walk meets them. -/
def walkOrderAll : List (Tree β) → List β
  | [] => []
  | tree :: rest => walkOrderAll rest ++ walkOrder tree

end

theorem walkOrderAll_perm (trees : List (Tree β)) :
    (walkOrderAll trees).Perm (labelsAll trees) := by
  induction trees using forest_induction with
  | nil => simp [walkOrderAll]
  | cons label below rest ihb ihr =>
    simp only [walkOrderAll, walkOrder, labelsAll_cons, labels_node]
    exact List.perm_append_comm.trans ((ihb.cons label).append ihr)

theorem walkOrder_perm (tree : Tree β) : tree.walkOrder.Perm tree.labels := by
  obtain ⟨label, below⟩ := tree
  exact (walkOrderAll_perm below).cons label

theorem mem_walkOrderAll {trees : List (Tree β)} {label : β} :
    label ∈ walkOrderAll trees ↔ label ∈ labelsAll trees :=
  (walkOrderAll_perm trees).mem_iff

/-! ## 3. Children -/

/-- A node of the first label has a child of the second. -/
def IsChild (trees : List (Tree β)) (label other : β) : Prop :=
  ∃ below, (label, below) ∈ flattenAll trees ∧ other ∈ below

/-- A label is that of a root or that of a child, and of one of these only. -/
theorem labelsAll_perm_children (trees : List (Tree β)) :
    (labelsAll trees).Perm (trees.map Tree.label ++ (flattenAll trees).flatMap Prod.snd) := by
  induction trees using forest_induction with
  | nil => simp [flattenAll]
  | cons label below rest ihb ihr =>
    have hrest : (labelsAll below ++ labelsAll rest).Perm
        (rest.map Tree.label ++ ((below.map Tree.label ++ (flattenAll below).flatMap Prod.snd) ++
          (flattenAll rest).flatMap Prod.snd)) :=
      (ihb.append ihr).trans (List.perm_append_comm_assoc _ _ _)
    simpa [flattenAll, flatten, List.append_assoc] using hrest.cons label

/-- The labels of a tree are that of the root and those of all children. -/
theorem labels_perm_children (tree : Tree β) :
    tree.labels.Perm (tree.label :: tree.flatten.flatMap Prod.snd) := by
  simpa [flattenAll] using labelsAll_perm_children [tree]

/-- Roots first, and then all that is below them. -/
theorem labelsAll_perm_below (trees : List (Tree β)) :
    (labelsAll trees).Perm
      (trees.map Tree.label ++ trees.flatMap fun tree => labelsAll tree.children) := by
  induction trees with
  | nil => simp
  | cons tree rest ih =>
    obtain ⟨label, below⟩ := tree
    have hrest : (labelsAll below ++ labelsAll rest).Perm
        (rest.map Tree.label ++
          (labelsAll below ++ rest.flatMap fun tree => labelsAll tree.children)) :=
      (ih.append_left _).trans (List.perm_append_comm_assoc _ _ _)
    simpa using hrest.cons label

/-! ## 4. Other labels -/

mutual

/-- The tree with other labels. -/
def map (f : β → γ) : Tree β → Tree γ
  | .node label below => .node (f label) (mapAll f below)

/-- Some trees with other labels. -/
def mapAll (f : β → γ) : List (Tree β) → List (Tree γ)
  | [] => []
  | tree :: rest => map f tree :: mapAll f rest

end

theorem labelsAll_mapAll (f : β → γ) (trees : List (Tree β)) :
    labelsAll (mapAll f trees) = (labelsAll trees).map f := by
  induction trees using forest_induction with
  | nil => rfl
  | cons label below rest ihb ihr => simp [mapAll, map, ihb, ihr]

theorem map_label_mapAll (f : β → γ) (trees : List (Tree β)) :
    (mapAll f trees).map Tree.label = (trees.map Tree.label).map f := by
  induction trees with
  | nil => rfl
  | cons tree rest ih =>
    obtain ⟨label, below⟩ := tree
    simp [mapAll, map, ih]

theorem flattenAll_mapAll (f : β → γ) (trees : List (Tree β)) :
    flattenAll (mapAll f trees) =
      (flattenAll trees).map fun entry => (f entry.1, entry.2.map f) := by
  induction trees using forest_induction with
  | nil => rfl
  | cons label below rest ihb ihr =>
    simp [mapAll, map, flattenAll, flatten, ihb, ihr, map_label_mapAll]

/-- Only the new labels of labels that occur matter, whatever was done before. -/
theorem mapAll_mapAll {δ : Type} {f : β → γ} {g : γ → δ} {k : β → δ} (trees : List (Tree β))
    (h : ∀ label ∈ labelsAll trees, g (f label) = k label) :
    mapAll g (mapAll f trees) = mapAll k trees := by
  induction trees using forest_induction with
  | nil => rfl
  | cons label below rest ihb ihr =>
    simp only [labelsAll_cons, labels_node, List.cons_append, List.forall_mem_cons,
      List.forall_mem_append] at h
    simp only [mapAll, map, h.1, ihb h.2.1, ihr h.2.2]

end Tree
end SampledProfile
