/-
# Trees without some of their nodes

Some labels of a tree are to be dropped, and what is below a dropped node moves up.  The SURFACE
of a forest has the labels that no kept label of the forest stands above.  So what a kept node has
below it when all is done are the kept labels on the surface of what it had below before.

* `Tree.contractAll` does the moving up, in the order of the walk from the right, and notes the
  surface below every label that is kept.  `Tree.standAll` says which kept label stands for which;
* `Tree.NearestKept` says it without recursion over trees: the nearest kept label above another is
  a kept parent, or what is nearest to a dropped parent;
* `surfaceAll_eq_filter`: in a tree without equal labels the surface below a kept label has the
  labels that it is nearest to, in the order of the walk.
-/
import Mathlib.Data.List.Nodup
import Mathlib.Logic.Relation
import SampledProfile.Proofs.Forest

namespace SampledProfile
namespace Tree

variable {β : Type}

/-! ## 1. Parts of trees -/

mutual

/-- A tree and all trees in it, each before those in it. -/
def subtrees : Tree β → List (Tree β)
  | .node label below => .node label below :: subtreesAll below

/-- Some trees and all trees in them. -/
def subtreesAll : List (Tree β) → List (Tree β)
  | [] => []
  | tree :: rest => subtrees tree ++ subtreesAll rest

end

theorem flattenAll_eq (trees : List (Tree β)) :
    flattenAll trees = (subtreesAll trees).map fun tree =>
      (tree.label, tree.children.map Tree.label) := by
  induction trees using forest_induction with
  | nil => rfl
  | cons label below rest ihb ihr =>
    simp [flattenAll, flatten, subtreesAll, subtrees, ihb, ihr]

theorem labelsAll_eq (trees : List (Tree β)) :
    labelsAll trees = (subtreesAll trees).map Tree.label := by
  simp [labelsAll, flattenAll_eq]

theorem isChild_iff {trees : List (Tree β)} {label other : β} :
    IsChild trees label other ↔
      ∃ below, .node label below ∈ subtreesAll trees ∧ other ∈ below.map Tree.label := by
  simp only [IsChild, flattenAll_eq, List.mem_map, Prod.mk.injEq]
  constructor
  · rintro ⟨_, ⟨⟨label, below⟩, hmem, rfl, rfl⟩, hother⟩
    exact ⟨below, hmem, List.mem_map.mp hother⟩
  · rintro ⟨below, hmem, hother⟩
    exact ⟨_, ⟨_, hmem, rfl, rfl⟩, List.mem_map.mpr hother⟩

/-- Where no label stands twice, a label has one subtree below it. -/
theorem below_unique {trees : List (Tree β)} (hnd : (labelsAll trees).Nodup) {label : β}
    {below other : List (Tree β)} (h : .node label below ∈ subtreesAll trees)
    (h' : .node label other ∈ subtreesAll trees) : below = other := by
  rw [labelsAll_eq] at hnd
  exact (Tree.node.inj (List.inj_on_of_nodup_map hnd h h' rfl)).2

/-- What is in a part is in the whole, and the walk over the part is part of the walk over the
whole. -/
theorem sublists_of_mem_subtreesAll {label : β} {below : List (Tree β)} (trees : List (Tree β))
    (h : .node label below ∈ subtreesAll trees) :
    (subtreesAll below).Sublist (subtreesAll trees) ∧
      (walkOrderAll below).Sublist (walkOrderAll trees) := by
  induction trees using forest_induction with
  | nil => cases h
  | cons other inner rest ihb ihr =>
    simp only [subtreesAll, subtrees, List.cons_append, List.mem_cons, List.mem_append] at h
    simp only [subtreesAll, subtrees, walkOrderAll, walkOrder]
    rcases h with heq | h | h
    · obtain ⟨rfl, rfl⟩ := Tree.node.inj heq
      exact ⟨((List.sublist_append_left _ _).cons _),
        ((List.sublist_cons_self _ _).trans (List.sublist_append_right _ _))⟩
    · obtain ⟨hsub, hwalk⟩ := ihb h
      exact ⟨(hsub.trans (List.sublist_append_left _ _)).cons _,
        (hwalk.trans (List.sublist_cons_self _ _)).trans (List.sublist_append_right _ _)⟩
    · obtain ⟨hsub, hwalk⟩ := ihr h
      exact ⟨(hsub.trans (List.sublist_append_right _ _)).cons _,
        hwalk.trans (List.sublist_append_left _ _)⟩

theorem isChild_of_mem_subtreesAll {tree : Tree β} {label : β} {below : List (Tree β)}
    (h : .node label below ∈ tree.subtrees) {child : Tree β} (hchild : child ∈ below) :
    IsChild [tree] label child.label :=
  isChild_iff.mpr ⟨below, by simpa [subtreesAll] using h, List.mem_map_of_mem hchild⟩

/-- What is in a forest is reached from where its roots are reached from. -/
theorem reachable_of_mem_labelsAll {tree : Tree β} {top : β} (trees : List (Tree β))
    (hparts : ∀ part ∈ subtreesAll trees, part ∈ tree.subtrees)
    (hroots : ∀ root ∈ trees, Relation.ReflTransGen (IsChild [tree]) top root.label) :
    ∀ label ∈ labelsAll trees, Relation.ReflTransGen (IsChild [tree]) top label := by
  induction trees using forest_induction with
  | nil => simp
  | cons label below rest ihb ihr =>
    simp only [subtreesAll, subtrees, List.mem_append, List.mem_cons] at hparts
    obtain ⟨hroot, hrest⟩ := List.forall_mem_cons.mp hroots
    intro other hother
    simp only [labelsAll_cons, labels_node, List.mem_append, List.mem_cons] at hother
    rcases hother with (rfl | hother) | hother
    · exact hroot
    · refine ihb (fun part hpart => hparts part (.inl (.inr hpart))) (fun child hchild => ?_)
        other hother
      exact hroot.tail (isChild_of_mem_subtreesAll (hparts _ (.inl (.inl rfl))) hchild)
    · exact ihr (fun part hpart => hparts part (.inr hpart)) hrest other hother

/-- Everything in a tree is reached from its root. -/
theorem reachable_of_mem_labels {tree : Tree β} {label : β} (h : label ∈ tree.labels) :
    Relation.ReflTransGen (IsChild [tree]) tree.label label :=
  reachable_of_mem_labelsAll [tree] (by simp [subtreesAll]) (by simp [Relation.ReflTransGen.refl])
    label (by simpa using h)

/-! ## 2. Dropping nodes -/

variable (elided : β → Bool)

mutual

/-- The labels of a tree that no kept label of it stands above. -/
def surface : Tree β → List β
  | .node label below => label :: if elided label then surfaceAll below else []

/-- The labels of some trees that no kept label of theirs stands above. -/
def surfaceAll : List (Tree β) → List β
  | [] => []
  | tree :: rest => surfaceAll rest ++ surface tree

end

mutual

/-- What is left of a tree, each label with the surface of what was below it. -/
def contract : Tree β → List (Tree (β × List β))
  | .node label below =>
    if elided label then contractAll below
    else [.node (label, surfaceAll elided below) (contractAll below)]

/-- What is left of some trees. -/
def contractAll : List (Tree β) → List (Tree (β × List β))
  | [] => []
  | tree :: rest => contractAll rest ++ contract tree

end

mutual

/-- Every label of a tree with the kept label that stands for it; above the tree is `above`. -/
def stand (above : β) : Tree β → List (β × β)
  | .node label below =>
    if elided label then (label, above) :: standAll above below
    else (label, label) :: standAll label below

/-- Every label of some trees with the kept label that stands for it. -/
def standAll (above : β) : List (Tree β) → List (β × β)
  | [] => []
  | tree :: rest => standAll above rest ++ stand above tree

end

theorem surfaceAll_append (trees others : List (Tree β)) :
    surfaceAll elided (trees ++ others) = surfaceAll elided others ++ surfaceAll elided trees := by
  induction trees with
  | nil => simp [surfaceAll]
  | cons tree rest ih => simp [surfaceAll, ih]

theorem contractAll_append (trees others : List (Tree β)) :
    contractAll elided (trees ++ others) =
      contractAll elided others ++ contractAll elided trees := by
  induction trees with
  | nil => simp [contractAll]
  | cons tree rest ih => simp [contractAll, ih]

theorem standAll_append (above : β) (trees others : List (Tree β)) :
    standAll elided above (trees ++ others) =
      standAll elided above others ++ standAll elided above trees := by
  induction trees with
  | nil => simp [standAll]
  | cons tree rest ih => simp [standAll, ih]

theorem map_fst_standAll (above : β) (trees : List (Tree β)) :
    (standAll elided above trees).map Prod.fst = walkOrderAll trees := by
  induction trees using forest_induction generalizing above with
  | nil => rfl
  | cons label below rest ihb ihr =>
    simp only [standAll, stand, walkOrderAll, walkOrder, List.map_append, ihr]
    split <;> simp [ihb]

/-- The roots of what is left are the kept labels on the surface. -/
theorem map_label_contractAll (trees : List (Tree β)) :
    (contractAll elided trees).map (fun tree => tree.label.1) =
      (surfaceAll elided trees).filter fun label => !elided label := by
  induction trees using forest_induction with
  | nil => rfl
  | cons label below rest ihb ihr =>
    simp only [contractAll, contract, surfaceAll, surface, List.map_append, List.filter_append, ihr]
    cases h : elided label with
    | false => simp [h]
    | true => simp [h, ihb]

/-- What is left, from the root on, are the kept labels in the order of the walk. -/
theorem labelsAll_contractAll (trees : List (Tree β)) :
    (labelsAll (contractAll elided trees)).map Prod.fst =
      (walkOrderAll trees).filter fun label => !elided label := by
  induction trees using forest_induction with
  | nil => rfl
  | cons label below rest ihb ihr =>
    simp only [contractAll, contract, walkOrderAll, walkOrder, labelsAll_append, List.map_append,
      List.filter_append, ihr]
    cases h : elided label with
    | false => simp [h, ihb]
    | true => simp [h, ihb]

theorem subtreesAll_append (trees others : List (Tree β)) :
    subtreesAll (trees ++ others) = subtreesAll trees ++ subtreesAll others := by
  induction trees with
  | nil => rfl
  | cons tree rest ih => simp [subtreesAll, ih]

/-- A node that is left was kept; it notes the surface of what was below it, and below it is what
is left of that. -/
theorem of_mem_subtreesAll_contractAll {pair : β × List β} {below : List (Tree (β × List β))}
    (trees : List (Tree β)) (h : .node pair below ∈ subtreesAll (contractAll elided trees)) :
    elided pair.1 = false ∧ ∃ inner, .node pair.1 inner ∈ subtreesAll trees ∧
      pair.2 = surfaceAll elided inner ∧ below = contractAll elided inner := by
  induction trees using forest_induction with
  | nil => cases h
  | cons label inner rest ihb ihr =>
    simp only [contractAll, contract, subtreesAll_append, List.mem_append] at h
    simp only [subtreesAll, subtrees, List.mem_append, List.mem_cons]
    rcases h with h | h
    · obtain ⟨hkept, found, hfound, hrest⟩ := ihr h
      exact ⟨hkept, found, .inr hfound, hrest⟩
    · cases hlabel : elided label with
      | false =>
        simp only [hlabel, Bool.false_eq_true, if_false, subtreesAll, subtrees, List.append_nil,
          List.mem_cons] at h
        rcases h with heq | h
        · obtain ⟨rfl, rfl⟩ := Tree.node.inj heq
          exact ⟨hlabel, inner, .inl (.inl rfl), rfl, rfl⟩
        · obtain ⟨hkept, found, hfound, hrest⟩ := ihb h
          exact ⟨hkept, found, .inl (.inr hfound), hrest⟩
      | true =>
        simp only [hlabel, if_true] at h
        obtain ⟨hkept, found, hfound, hrest⟩ := ihb h
        exact ⟨hkept, found, .inl (.inr hfound), hrest⟩

/-! ## 3. The nearest kept label -/

/-- The kept label `top` is the nearest one above another. -/
inductive NearestKept (tree : Tree β) (top : β) : β → Prop
  | child {label : β} (kept : elided top = false) (parent : IsChild [tree] top label) :
    NearestKept tree top label
  | step {above label : β} (nearest : NearestKept tree top above) (dropped : elided above = true)
      (parent : IsChild [tree] above label) : NearestKept tree top label

/-- The kept label that stands for another: itself, or the nearest one above if it is dropped. -/
def StandsFor (tree : Tree β) (kept label : β) : Prop :=
  if elided label then NearestKept elided tree kept label else kept = label

variable {elided}

/-- What is nearest above another label is a kept label of the tree. -/
theorem NearestKept.kept {tree : Tree β} {top label : β} (h : NearestKept elided tree top label) :
    elided top = false ∧ top ∈ tree.labels := by
  induction h with
  | child kept parent =>
    obtain ⟨below, hmem, -⟩ := parent
    exact ⟨kept, by simpa [labels, flattenAll] using List.mem_map_of_mem (f := Prod.fst) hmem⟩
  | step _ _ _ ih => exact ih

/-- What stands for a label of the tree is a kept label of the tree. -/
theorem StandsFor.kept {tree : Tree β} {kept label : β} (h : StandsFor elided tree kept label)
    (hlabel : label ∈ tree.labels) : elided kept = false ∧ kept ∈ tree.labels := by
  unfold StandsFor at h
  split at h
  · exact NearestKept.kept h
  · rename_i hkept
    exact ⟨by rw [h]; simpa using hkept, h ▸ hlabel⟩

/-- What stands on the surface of a forest has nearest to it what the roots have. -/
theorem nearestKept_of_mem_surfaceAll {tree : Tree β} {top : β} (trees : List (Tree β))
    (hparts : ∀ part ∈ subtreesAll trees, part ∈ tree.subtrees)
    (hroots : ∀ root ∈ trees, NearestKept elided tree top root.label) :
    ∀ label ∈ surfaceAll elided trees, NearestKept elided tree top label := by
  induction trees using forest_induction with
  | nil => simp [surfaceAll]
  | cons label below rest ihb ihr =>
    simp only [subtreesAll, subtrees, List.mem_append, List.mem_cons] at hparts
    have hroot : NearestKept elided tree top label := hroots _ List.mem_cons_self
    intro other hother
    simp only [surfaceAll, surface, List.mem_append, List.mem_cons] at hother
    rcases hother with hother | rfl | hother
    · exact ihr (fun part hpart => hparts part (.inr hpart))
        (fun root h => hroots root (List.mem_cons_of_mem _ h)) other hother
    · exact hroot
    · cases hdropped : elided label with
      | false => simp [hdropped] at hother
      | true =>
        rw [hdropped, if_pos rfl] at hother
        refine ihb (fun part hpart => hparts part (.inl (.inr hpart))) (fun root h => ?_)
          other hother
        exact .step hroot hdropped (isChild_of_mem_subtreesAll (hparts _ (.inl (.inl rfl))) h)

/-- The roots are on the surface. -/
theorem label_mem_surfaceAll {trees : List (Tree β)} {root : Tree β} (h : root ∈ trees) :
    root.label ∈ surfaceAll elided trees := by
  induction trees with
  | nil => cases h
  | cons tree rest ih =>
    simp only [surfaceAll, List.mem_append]
    rcases List.mem_cons.mp h with rfl | h
    · obtain ⟨label, below⟩ := root
      exact .inr List.mem_cons_self
    · exact .inl (ih h)

/-- Where a dropped label is on the surface, so is what is on the surface below it. -/
theorem exists_of_mem_surfaceAll {label : β} (hdropped : elided label = true)
    (trees : List (Tree β)) (h : label ∈ surfaceAll elided trees) :
    ∃ below, .node label below ∈ subtreesAll trees ∧
      ∀ other ∈ surfaceAll elided below, other ∈ surfaceAll elided trees := by
  induction trees using forest_induction with
  | nil => cases h
  | cons root inner rest ihb ihr =>
    simp only [surfaceAll, surface, subtreesAll, subtrees, List.mem_append, List.mem_cons] at h ⊢
    rcases h with h | rfl | h
    · obtain ⟨below, hmem, hsurface⟩ := ihr h
      exact ⟨below, .inr hmem, fun other ho => .inl (hsurface other ho)⟩
    · exact ⟨inner, .inl (.inl rfl), fun other ho => .inr (.inr (by rwa [hdropped, if_pos rfl]))⟩
    · cases hroot : elided root with
      | false => simp [hroot] at h
      | true =>
        rw [hroot, if_pos rfl] at h
        obtain ⟨below, hmem, hsurface⟩ := ihb h
        exact ⟨below, .inl (.inr hmem), fun other ho => .inr (.inr (hsurface other ho))⟩

/-- **A kept label is the nearest one above exactly what is on the surface below it.** -/
theorem nearestKept_iff {tree : Tree β} (hnd : tree.labels.Nodup) {top : β}
    (hkept : elided top = false) {below : List (Tree β)} (h : .node top below ∈ tree.subtrees)
    {label : β} : NearestKept elided tree top label ↔ label ∈ surfaceAll elided below := by
  have hnd' : (labelsAll [tree]).Nodup := by simpa using hnd
  have hmem : .node top below ∈ subtreesAll [tree] := by simpa [subtreesAll] using h
  have hparts := (sublists_of_mem_subtreesAll [tree] hmem).1
  constructor
  · intro hnearest
    induction hnearest with
    | child _ parent =>
      obtain ⟨other, hother, hlabel⟩ := isChild_iff.mp parent
      obtain ⟨child, hchild, rfl⟩ := List.mem_map.mp hlabel
      exact label_mem_surfaceAll (below_unique hnd' hother hmem ▸ hchild)
    | step _ dropped parent ih =>
      obtain ⟨inner, hinner, hsurface⟩ := exists_of_mem_surfaceAll dropped below ih
      obtain ⟨other, hother, hlabel⟩ := isChild_iff.mp parent
      obtain ⟨child, hchild, rfl⟩ := List.mem_map.mp hlabel
      have hsame := below_unique hnd' hother (hparts.subset hinner)
      exact hsurface _ (label_mem_surfaceAll (hsame ▸ hchild))
  · refine nearestKept_of_mem_surfaceAll below (fun part hpart => ?_) (fun root hroot => ?_) label
    · simpa [subtreesAll] using hparts.subset hpart
    · exact .child hkept (isChild_of_mem_subtreesAll h hroot)

/-- The surface of a forest is part of the walk over it. -/
theorem surfaceAll_sublist (trees : List (Tree β)) :
    (surfaceAll elided trees).Sublist (walkOrderAll trees) := by
  induction trees using forest_induction with
  | nil => exact .slnil
  | cons label below rest ihb ihr =>
    simp only [surfaceAll, surface, walkOrderAll, walkOrder]
    refine ihr.append (.cons_cons label ?_)
    split
    · exact ihb
    · exact List.nil_sublist _

/-- Part of a list without repetitions is what has been chosen from it. -/
theorem eq_filter_of_sublist {part whole : List β} {p : β → Bool} (h : part.Sublist whole)
    (hnd : whole.Nodup) (hp : ∀ label ∈ whole, p label = true ↔ label ∈ part) :
    part = whole.filter p := by
  induction h with
  | slnil => rfl
  | cons label hsub ih =>
    have hout : label ∉ _ := fun hmem => (List.nodup_cons.mp hnd).1 (hsub.subset hmem)
    rw [List.filter_cons_of_neg (fun hlabel => hout ((hp label List.mem_cons_self).mp hlabel))]
    exact ih (List.nodup_cons.mp hnd).2 fun other ho => hp other (List.mem_cons_of_mem _ ho)
  | cons_cons label hsub ih =>
    rw [List.filter_cons_of_pos ((hp label List.mem_cons_self).mpr List.mem_cons_self)]
    congr 1
    refine ih (List.nodup_cons.mp hnd).2 fun other ho => ?_
    rw [hp other (List.mem_cons_of_mem _ ho), List.mem_cons]
    refine or_iff_right ?_
    rintro rfl
    exact (List.nodup_cons.mp hnd).1 ho

open Classical in
/-- **In the order of the walk, the surface below a kept label has the labels it is nearest to.** -/
theorem surfaceAll_eq_filter {tree : Tree β} (hnd : tree.labels.Nodup) {top : β}
    (hkept : elided top = false) {below : List (Tree β)} (h : .node top below ∈ tree.subtrees) :
    surfaceAll elided below =
      tree.walkOrder.filter fun label => NearestKept elided tree top label := by
  have hmem : .node top below ∈ subtreesAll [tree] := by simpa [subtreesAll] using h
  have hwalk : (walkOrderAll below).Sublist tree.walkOrder := by
    simpa [walkOrderAll] using (sublists_of_mem_subtreesAll [tree] hmem).2
  refine eq_filter_of_sublist ((surfaceAll_sublist below).trans hwalk)
    ((walkOrder_perm tree).nodup_iff.mpr hnd) fun label _ => ?_
  rw [decide_eq_true_eq, nearestKept_iff hnd hkept h]

/-- What `standAll` says of a forest below a kept label is so in the whole tree. -/
theorem standsFor_of_mem_standAll {tree : Tree β} {pair : β × β} (trees : List (Tree β)) {top : β}
    (hparts : ∀ part ∈ subtreesAll trees, part ∈ tree.subtrees)
    (hroots : ∀ root ∈ trees, NearestKept elided tree top root.label)
    (h : pair ∈ standAll elided top trees) : StandsFor elided tree pair.2 pair.1 := by
  induction trees using forest_induction generalizing top with
  | nil => cases h
  | cons label below rest ihb ihr =>
    simp only [subtreesAll, subtrees, List.mem_append, List.mem_cons] at hparts
    have hroot : NearestKept elided tree top label := hroots _ List.mem_cons_self
    have hbelow : ∀ child ∈ below, IsChild [tree] label child.label := fun child hchild =>
      isChild_of_mem_subtreesAll (hparts _ (.inl (.inl rfl))) hchild
    simp only [standAll, List.mem_append] at h
    rcases h with h | h
    · exact ihr (fun part hpart => hparts part (.inr hpart))
        (fun root hmem => hroots root (List.mem_cons_of_mem _ hmem)) h
    · cases hdropped : elided label with
      | false =>
        simp only [stand, hdropped, Bool.false_eq_true, if_false, List.mem_cons] at h
        rcases h with rfl | h
        · simp [StandsFor, hdropped]
        · exact ihb (fun part hpart => hparts part (.inl (.inr hpart)))
            (fun child hchild => .child hdropped (hbelow child hchild)) h
      | true =>
        simp only [stand, hdropped, if_true, List.mem_cons] at h
        rcases h with rfl | h
        · simpa [StandsFor, hdropped] using hroot
        · exact ihb (fun part hpart => hparts part (.inl (.inr hpart)))
            (fun child hchild => .step hroot hdropped (hbelow child hchild)) h

end Tree
end SampledProfile
