/-
# Nested nodes as a flat list

In the legacy format the nodes of a profile are nested: a value has the fields of a node, and its
children are values of the same kind (`Recording.Nests`).  Flattening puts the nodes in a list, each
before those below it, and the ids of its children in the place of its children
(`Recording.flattenAll_nests`).

If no id stands twice, the lists of children that the flat nodes have are those of a tree over the
first node: every other node is listed once (`Recording.occurrences_flatNodes`) and can be reached
from it (`Recording.reachable_flatNodes`).
-/
import SampledProfile.Proofs.Contraction.Accepted
import SampledProfile.Recording

namespace SampledProfile
namespace Recording

open Outcome SampledProfile.Tree

variable {α : Type}

/-! ## 1. Flattening -/

/-- Values in which the nodes of some trees are nested: the children of a node are a list of such
values, or are not given. -/
inductive Nests : List (Value α) → List (Tree (Fields α)) → Prop
  | nil : Nests [] []
  | cons {node : Fields α} {children rest : List (Value α)} {below others : List (Tree (Fields α))} :
      node.get "children" = .list children ∨ node.get "children" = .null ∧ children = [] →
      Nests children below → Nests rest others →
      Nests (.obj node :: rest) (.node node below :: others)

/-- A node with the ids of its children in their place. -/
def flatNode (entry : Fields α × List (Fields α)) : Fields α :=
  entry.1.set "children" (.list (entry.2.map (·.get "id")))

/-- The nodes of some trees as a flat list. -/
def flatNodes (trees : List (Tree (Fields α))) : List (Fields α) :=
  (Tree.flattenAll trees).map flatNode

theorem get_flatNode_of_ne (entry : Fields α × List (Fields α)) {name : String}
    (h : name ≠ "children") : (flatNode entry).get? name = entry.1.get? name :=
  Fields.get?_set_of_ne _ _ h.symm

theorem get_flatNode_children (entry : Fields α × List (Fields α)) :
    (flatNode entry).get "children" = .list (entry.2.map (·.get "id")) := by
  rw [Fields.get, flatNode, Fields.get?_set_self, Option.getD_some]

/-- The nodes that are children of others. -/
def nestedNodes (trees : List (Tree (Fields α))) : List (Fields α) :=
  (Tree.flattenAll trees).flatMap Prod.snd

/-- Is the id of the node given, be it nothing? -/
def hasId (node : Fields α) : Bool := (node.get? "id").isSome

theorem nestedNodes_cons (node : Fields α) (below rest : List (Tree (Fields α))) :
    nestedNodes (.node node below :: rest) =
      below.map Tree.label ++ (nestedNodes below ++ nestedNodes rest) := by
  simp [nestedNodes, Tree.flattenAll, Tree.flatten]

/-- Every nested node is a node. -/
theorem mem_labelsAll_of_nestedNodes {trees : List (Tree (Fields α))} {node : Fields α}
    (h : node ∈ nestedNodes trees) : node ∈ labelsAll trees :=
  (labelsAll_perm_children trees).mem_iff.mpr (List.mem_append_right _ h)

theorem hasId_of_given {node : Fields α} (h : (node.get "id").isNull = false) :
    hasId node = true := by
  unfold hasId
  unfold Fields.get at h
  cases hfield : node.get? "id" with
  | none => simp [hfield, Value.isNull] at h
  | some value => rfl

/-- Ids of nodes are there, or the field of one of them is missing. -/
theorem mapM_idOf {values : List (Value α)} {trees : List (Tree (Fields α))}
    (h : Nests values trees) :
    values.mapM idOf =
      if (trees.map Tree.label).all hasId then .ok (trees.map fun tree => tree.label.get "id")
      else .error (.missingField "'id'") := by
  induction h with
  | nil => rfl
  | @cons node children rest below others _ _ _ _ ihr =>
    rw [List.mapM_cons, ihr]
    simp only [idOf, Fields.require, List.map_cons, List.all_cons, label_node, hasId, Fields.get]
    cases node.get? "id" with
    | none => rfl
    | some id =>
      simp only [ok_bind, Option.isSome_some, Bool.true_and, Option.getD_some]
      split
      · rfl
      · rfl

theorem set_of_get? {name : String} {value : Value α} : ∀ {fields : Fields α},
    fields.get? name = some value → fields.set name value = fields
  | (key, old) :: rest, h => by
    unfold Fields.get? at h
    unfold Fields.set
    split
    · rename_i hkey
      rw [if_pos hkey] at h
      rw [Option.some.inj h]
    · rename_i hkey
      rw [if_neg hkey] at h
      rw [set_of_get? h]

variable [Scalar α]

/-- A flat node is copied as it is. -/
theorem copyNode_obj {node : Fields α}
    (h : node.get "children" = .null ∨ ∃ ids, node.get "children" = .list ids) :
    copyNode (.obj node) = .ok node := by
  rcases h with hnull | ⟨ids, hids⟩
  · simp only [copyNode, asObject, ok_bind, hnull, Value.isNull, if_true]
    rfl
  · have hget : node.get? "children" = some (.list ids) := by
      cases hfield : node.get? "children" with
      | none => simp [Fields.get, hfield] at hids
      | some value =>
        rw [Fields.get, hfield, Option.getD_some] at hids
        rw [hids]
    simp only [copyNode, asObject, ok_bind, hids, Value.isNull, Bool.false_eq_true, if_false,
      Value.items, set_of_get? hget]
    rfl

/-- So are all nodes of a list. -/
theorem mapM_copyNode_obj {nodes : List (Fields α)}
    (h : ∀ node ∈ nodes, Fields.get node "children" = .null ∨
      ∃ ids, Fields.get node "children" = .list ids) :
    (nodes.map Value.obj).mapM copyNode = .ok nodes := by
  rw [mapM_eq_ok_iff, List.forall₂_map_left_iff, List.forall₂_same]
  exact fun node hnode => copyNode_obj (h node hnode)

/-- A profile that has a head is read in the legacy format. -/
theorem ofProfile_of_head {profile : Fields α} (hhead : (profile.get "head").truthy = true) :
    ofProfile (.obj profile) = ofLegacy profile := by
  rw [ofProfile, formatOf, if_pos hhead, ok_bind]

/-- A profile that has nodes and no head is read in the current format. -/
theorem ofProfile_of_nodes {profile : Fields α} (hhead : (profile.get "head").truthy = false)
    (hnodes : (profile.get "nodes").truthy = true) : ofProfile (.obj profile) = ofCurrent profile := by
  rw [ofProfile, formatOf, hhead, hnodes]
  rfl

/-- What is nested in a node stands in its list of children. -/
theorem flattenBelow_eq : ∀ {node : Fields α} {children : List (Value α)},
    node.get "children" = .list children ∨ node.get "children" = .null ∧ children = [] →
      flattenBelow node = flattenAll children
  | [], children, h => by
    rcases h with h | ⟨-, rfl⟩
    · cases h
    · simp [flattenBelow, flattenAll]
  | (name, value) :: rest, children, h => by
    unfold Fields.get Fields.get? at h
    by_cases hname : name = "children"
    · rw [if_pos hname, Option.getD_some] at h
      rcases h with rfl | ⟨rfl, rfl⟩
      · simp [flattenBelow, hname]
      · simp [flattenBelow, flattenAll, hname]
    · rw [if_neg hname] at h
      have hrest : flattenBelow ((name, value) :: rest) = flattenBelow rest := by
        cases value <;> simp [flattenBelow, hname]
      rw [hrest]
      exact flattenBelow_eq h

/-- **Nested nodes are flattened in their order, each with the ids of its children, and if one of
these has none it is missing.** -/
theorem flattenAll_nests {values : List (Value α)} {trees : List (Tree (Fields α))}
    (h : Nests values trees) :
    flattenAll values =
      if (nestedNodes trees).all hasId then .ok (flatNodes trees)
      else .error (.missingField "'id'") := by
  induction h with
  | nil => simp [flattenAll, nestedNodes, flatNodes, Tree.flattenAll]
  | @cons node children rest below others hchildren hbelow hrest ihb ihr =>
    have hitems : ((node.get "children").orElse (.list [])).items = .ok children := by
      unfold Value.orElse
      rcases hchildren with hlist | ⟨hnull, rfl⟩
      · rw [hlist]
        cases children <;> rfl
      · rw [hnull]
        rfl
    rw [flattenAll, flatten, childIds, hitems, ok_bind, mapM_idOf hbelow,
      flattenBelow_eq hchildren, ihb, ihr, nestedNodes_cons, List.all_append, List.all_append]
    cases (below.map Tree.label).all hasId with
    | false => rfl
    | true =>
      cases (nestedNodes below).all hasId with
      | false => rfl
      | true =>
        cases (nestedNodes others).all hasId with
        | false => rfl
        | true =>
          simp only [Bool.and_self, if_true, ok_bind, flatNodes, Tree.flattenAll, Tree.flatten,
            List.map_cons, List.map_append, flatNode, List.map_map]
          rfl

theorem flatten_nests {head : Value α} {tree : Tree (Fields α)} (h : Nests [head] [tree]) :
    flatten head =
      if (nestedNodes [tree]).all hasId then .ok (flatNodes [tree])
      else .error (.missingField "'id'") := by
  rw [← flattenAll_nests h, flattenAll]
  cases flatten head with
  | error fault => rfl
  | ok nodes => simp [flattenAll, bind, Except.bind, pure, Except.pure]

theorem flatten_eq {head : Value α} {tree : Tree (Fields α)} (h : Nests [head] [tree])
    (hids : ∀ node ∈ tree.labels, (node.get "id").isNull = false) :
    flatten head = .ok (flatNodes [tree]) := by
  have hlabels : labelsAll [tree] = tree.labels := by
    rw [labelsAll_cons, labelsAll_nil, List.append_nil]
  have hall : (nestedNodes [tree]).all hasId = true := by
    refine List.all_eq_true.mpr fun node hnode => hasId_of_given (hids node ?_)
    exact hlabels ▸ mem_labelsAll_of_nestedNodes hnode
  rw [flatten_nests h, if_pos hall]

/-- A node with an id counts as given. -/
theorem truthy_of_nests {head : Value α} {tree : Tree (Fields α)} (h : Nests [head] [tree])
    (hids : ∀ node ∈ tree.labels, (node.get "id").isNull = false) : head.truthy = true := by
  cases h with
  | @cons node _ _ below _ _ _ _ =>
    cases node with
    | nil => simp [Fields.get, Fields.get?, Value.isNull] at hids
    | cons field rest => rfl

/-! ## 2. The tree that the flat list describes -/

section Described

open Contraction NodeTable

variable {tree : Tree (Fields α)}

omit [Scalar α] in
theorem flatNodes_singleton (tree : Tree (Fields α)) :
    flatNodes [tree] = tree.flatten.map flatNode := by
  rw [flatNodes, Tree.flattenAll, Tree.flattenAll, List.append_nil]

omit [Scalar α] in
/-- The flat nodes have the fields of the nested ones, but for the children. -/
theorem map_get_flatNodes (tree : Tree (Fields α)) {name : String} (h : name ≠ "children") :
    (flatNodes [tree]).map (·.get name) = tree.labels.map (·.get name) := by
  rw [flatNodes_singleton, Tree.labels, List.map_map, List.map_map]
  refine List.map_congr_left fun entry _ => ?_
  simp only [Function.comp_apply, Fields.get, get_flatNode_of_ne entry h]

omit [Scalar α] in
theorem map_id_flatNodes (tree : Tree (Fields α)) :
    (flatNodes [tree]).map (·.get "id") = tree.labels.map (·.get "id") :=
  map_get_flatNodes tree (by decide)

omit [Scalar α] in
/-- What holds of the ids of the flat nodes holds of those of the nested ones. -/
theorem forall_id_flatNodes (tree : Tree (Fields α)) (P : Value α → Prop) :
    (∀ node ∈ flatNodes [tree], P (node.get "id")) ↔ ∀ node ∈ tree.labels, P (node.get "id") := by
  rw [← List.forall_mem_map, map_id_flatNodes, List.forall_mem_map]

omit [Scalar α] in
theorem pairwise_id_flatNodes (tree : Tree (Fields α)) (R : Value α → Value α → Prop) :
    (flatNodes [tree]).Pairwise (fun node other => R (node.get "id") (other.get "id")) ↔
      tree.labels.Pairwise fun node other => R (node.get "id") (other.get "id") := by
  rw [← List.pairwise_map, map_id_flatNodes, List.pairwise_map]

/-- The flat nodes have ids of their own if the nested ones do. -/
theorem ownIds_flatNodes : OwnIds (flatNodes [tree]) ↔ OwnIds tree.labels := by
  have hgiven := forall_id_flatNodes tree fun id => id.isNull = false
  have hname := forall_id_flatNodes tree fun id => ∃ key, id.key = .ok key
  have hdistinct := pairwise_id_flatNodes tree fun id other => ¬ id.SameName other
  constructor
  · exact fun h => ⟨hgiven.mp h.given, hname.mp h.isName, hdistinct.mp h.distinct⟩
  · exact fun h => ⟨hgiven.mpr h.given, hname.mpr h.isName, hdistinct.mpr h.distinct⟩

omit [Scalar α] in
theorem nodeIn_flatNodes {position : Nat} (hp : position < (flatNodes [tree]).length) :
    ∃ entry, tree.flatten[position]? = some entry ∧
      nodeIn (flatNodes [tree]) position = flatNode entry := by
  rw [flatNodes_singleton] at hp ⊢
  have hlt : position < tree.flatten.length := by simpa using hp
  refine ⟨tree.flatten[position], List.getElem?_eq_getElem hlt, ?_⟩
  rw [nodeIn_eq_getElem hp, List.getElem_map]

omit [Scalar α] in
theorem idIn_flatNodes {position : Nat} (hp : position < (flatNodes [tree]).length)
    {entry : Fields α × List (Fields α)} (hentry : tree.flatten[position]? = some entry) :
    idIn (flatNodes [tree]) position = entry.1.get "id" := by
  obtain ⟨found, hfound, hnode⟩ := nodeIn_flatNodes hp
  obtain rfl := Option.some.inj (hentry.symm.trans hfound)
  rw [idIn, hnode, Fields.get, get_flatNode_of_ne entry (by decide), Fields.get]

omit [Scalar α] in
theorem flatten_zero (tree : Tree (Fields α)) :
    tree.flatten[0]? = some (tree.label, tree.children.map Tree.label) := by
  obtain ⟨node, below⟩ := tree
  rfl

omit [Scalar α] in
theorem length_pos_flatNodes (tree : Tree (Fields α)) : 0 < (flatNodes [tree]).length := by
  obtain ⟨node, below⟩ := tree
  simp [flatNodes_singleton, Tree.flatten]

/-- A flat node lists the ids of its children, and no other way of naming children is looked at. -/
theorem childIds_flatNodes {position : Nat} (hp : position < (flatNodes [tree]).length)
    {entry : Fields α × List (Fields α)} (hentry : tree.flatten[position]? = some entry) :
    NodeTable.childIds (flatNodes [tree]) position = entry.2.map (·.get "id") := by
  obtain ⟨found, hfound, hnode⟩ := nodeIn_flatNodes hp
  obtain rfl := Option.some.inj (hentry.symm.trans hfound)
  obtain ⟨first, -, hfirst⟩ := nodeIn_flatNodes (length_pos_flatNodes tree)
  have hgiven : ((nodeIn (flatNodes [tree]) 0).get "children").isNull = false := by
    rw [hfirst, get_flatNode_children]
    rfl
  rw [NodeTable.childIds, hgiven, if_neg Bool.false_ne_true, List.append_nil, hnode]
  exact listed_of_list (get_flatNode_children entry)

/-- All lists of children together have the ids of all children of the tree. -/
theorem flatMap_childIds_flatNodes (tree : Tree (Fields α)) :
    (List.range (flatNodes [tree]).length).flatMap (NodeTable.childIds (flatNodes [tree])) =
      (tree.flatten.flatMap Prod.snd).map (·.get "id") := by
  have hrows : (List.range (flatNodes [tree]).length).map (NodeTable.childIds (flatNodes [tree])) =
      tree.flatten.map fun entry => entry.2.map (·.get "id") := by
    refine List.ext_getElem (by simp [flatNodes_singleton]) fun index hindex hindex' => ?_
    have hlt : index < (flatNodes [tree]).length := by simpa using hindex
    rw [List.length_map] at hindex'
    rw [List.getElem_map, List.getElem_map, List.getElem_range]
    exact childIds_flatNodes hlt (List.getElem?_eq_getElem hindex')
  rw [List.flatMap_def, hrows, List.map_flatMap, List.flatMap_def]

/-- Every node but the first is listed once, and the first one is not listed. -/
theorem occurrences_flatNodes (h : OwnIds tree.labels) {position : Nat}
    (hp : position < (flatNodes [tree]).length) :
    occurrences (flatNodes [tree]) position = if position = 0 then 0 else 1 := by
  obtain ⟨table, htable⟩ := exists_ofNodes_iff.mpr (ownIds_flatNodes.mpr h)
  obtain ⟨hnodes, hi⟩ := indexed_ofNodes htable
  rw [occurrences, flatMap_childIds_flatNodes]
  rw [← hnodes] at hp ⊢
  -- every id is that of one node, and these are the first one and all children
  have hnames : Names table.nodes (table.nodes.map (·.get "id"))
      (List.range table.nodes.length) := by
    rw [map_id_eq, Names, List.forall₂_map_left_iff, List.forall₂_same]
    intro place hplace
    rw [List.mem_range] at hplace
    exact ⟨hplace, _, hi.key place hplace, hi.key place hplace⟩
  have hone := hnames.count_eq hi hp
  rw [List.count_eq_one_of_mem List.nodup_range (List.mem_range.mpr hp), hnodes, map_id_flatNodes]
    at hone
  rw [((labels_perm_children tree).map (·.get "id")).countP_eq, List.map_cons, List.countP_cons, ← hnodes] at hone
  have hroot : (tree.label.get "id").SameName (idIn table.nodes position) ↔ position = 0 := by
    have hfirst : tree.label.get "id" = idIn table.nodes 0 := by
      rw [hnodes, idIn_flatNodes (length_pos_flatNodes tree) (flatten_zero tree)]
    have hpos : 0 < table.nodes.length := Nat.zero_lt_of_lt hp
    rw [hfirst]
    constructor
    · exact fun hname => (hi.eq_of_sameName hpos hp hname).symm
    · rintro rfl
      exact ⟨_, hi.key 0 hpos, hi.key 0 hpos⟩
  by_cases heq : position = 0
  · simp only [hroot.mpr heq, decide_true, if_true] at hone
    rw [if_pos heq]
    omega
  · have hno : ¬ (tree.label.get "id").SameName (idIn table.nodes position) :=
      fun hname => heq (hroot.mp hname)
    simp only [hno, decide_false, Bool.false_eq_true, if_false] at hone
    rw [if_neg heq]
    omega

/-- The children that are listed are nodes of the list. -/
theorem known_flatNodes (h : OwnIds tree.labels) {position : Nat}
    (hp : position < (flatNodes [tree]).length) :
    ∀ id ∈ NodeTable.childIds (flatNodes [tree]) position, Known (flatNodes [tree]) id := by
  intro id hid
  obtain ⟨entry, hentry, -⟩ := nodeIn_flatNodes hp
  rw [childIds_flatNodes hp hentry] at hid
  obtain ⟨child, hchild, rfl⟩ := List.mem_map.mp hid
  have hlabel : child ∈ tree.labels := (labels_perm_children tree).mem_iff.mpr
    (List.mem_cons_of_mem _ (List.mem_flatMap.mpr ⟨entry, List.mem_of_getElem? hentry, hchild⟩))
  obtain ⟨⟨found, below⟩, hmem, rfl⟩ := List.mem_map.mp hlabel
  obtain ⟨place, hplace⟩ := List.mem_iff_getElem?.mp hmem
  have hlt : place < (flatNodes [tree]).length := by
    rw [flatNodes_singleton, List.length_map]
    exact (List.getElem?_eq_some_iff.mp hplace).1
  obtain ⟨key, hkey⟩ := h.isName found hlabel
  exact ⟨place, hlt, key, hkey, (idIn_flatNodes hlt hplace).symm ▸ hkey⟩

/-- Every node can be reached from the first one. -/
theorem reachable_flatNodes (h : OwnIds tree.labels) {position : Nat}
    (hp : position < (flatNodes [tree]).length) :
    Relation.ReflTransGen (Lists (flatNodes [tree])) 0 position := by
  obtain ⟨table, htable⟩ := exists_ofNodes_iff.mpr (ownIds_flatNodes.mpr h)
  obtain ⟨hnodes, hi⟩ := indexed_ofNodes htable
  have hunique : ∀ place < (flatNodes [tree]).length, ∀ other < (flatNodes [tree]).length,
      (idIn (flatNodes [tree]) place).SameName (idIn (flatNodes [tree]) other) → place = other := by
    rw [← hnodes]
    exact fun place hplace other hother => hi.eq_of_sameName hplace hother
  have hname : ∀ place < (flatNodes [tree]).length,
      (idIn (flatNodes [tree]) place).SameName (idIn (flatNodes [tree]) place) := by
    rw [← hnodes]
    exact fun place hplace => ⟨_, hi.key place hplace, hi.key place hplace⟩
  -- a node is reached wherever a node of its id stands
  have hreach : ∀ node, Relation.ReflTransGen (IsChild [tree]) tree.label node →
      ∀ place < (flatNodes [tree]).length,
        (node.get "id").SameName (idIn (flatNodes [tree]) place) →
          Relation.ReflTransGen (Lists (flatNodes [tree])) 0 place := by
    intro node hnode
    induction hnode with
    | refl =>
      intro place hplace hsame
      rw [← idIn_flatNodes (length_pos_flatNodes tree) (flatten_zero tree)] at hsame
      obtain rfl := hunique _ (length_pos_flatNodes tree) _ hplace hsame
      exact .refl
    | tail _ hchild ih =>
      intro place hplace hsame
      obtain ⟨below, hentry, hmem⟩ := hchild
      rw [Tree.flattenAll, Tree.flattenAll, List.append_nil] at hentry
      obtain ⟨above, habove⟩ := List.mem_iff_getElem?.mp hentry
      have hlt : above < (flatNodes [tree]).length := by
        rw [flatNodes_singleton, List.length_map]
        exact (List.getElem?_eq_some_iff.mp habove).1
      refine (ih above hlt ?_).tail ⟨hlt, hplace, _, ?_, hsame⟩
      · rw [← idIn_flatNodes hlt habove]
        exact hname above hlt
      · rw [childIds_flatNodes hlt habove]
        exact List.mem_map_of_mem hmem
  obtain ⟨entry, hentry, -⟩ := nodeIn_flatNodes hp
  refine hreach entry.1 (reachable_of_mem_labels ?_) position hp ?_
  · exact List.mem_map_of_mem (List.mem_of_getElem? hentry)
  · rw [← idIn_flatNodes hp hentry]
    exact hname position hp

end Described

end Recording
end SampledProfile
