/-
# Indexed tables of nodes

A table is INDEXED when its names are the keys of its nodes, each at its position and none twice.
`NodeTable.ofNodes` makes such a table exactly of the lists in which every node has an id of its
own (`exists_ofNodes_iff`), and in such a table `find` finds a position exactly when the node
there has the name that is looked for (`Indexed.find_eq_ok_iff`).

What is filled in afterwards is one field of some nodes (`Fills`), never an id, so the table stays
indexed (`Fills.indexed`).
-/
import Mathlib.Data.List.Basic
import SampledProfile.NodeTable
import SampledProfile.Proofs.Names
import SampledProfile.Proofs.Outcome

namespace SampledProfile
namespace NodeTable

open Outcome

variable {α : Type}

/-! ## 1. Nodes at positions -/

/-- The fields of the node at a position of a list, none outside. -/
def nodeIn (nodes : List (Fields α)) (position : Nat) : Fields α := (nodes[position]?).getD []

/-- The id of the node at a position of a list. -/
def idIn (nodes : List (Fields α)) (position : Nat) : Value α := (nodeIn nodes position).get "id"

theorem nodeAt_eq (table : NodeTable α) (position : Nat) :
    table.nodeAt position = nodeIn table.nodes position := rfl

theorem nodeIn_append_of_lt {nodes others : List (Fields α)} {position : Nat}
    (h : position < nodes.length) : nodeIn (nodes ++ others) position = nodeIn nodes position := by
  simp [nodeIn, List.getElem?_append_left h]

@[simp] theorem nodeIn_append_self (nodes : List (Fields α)) (node : Fields α) :
    nodeIn (nodes ++ [node]) nodes.length = node := by
  simp [nodeIn]

theorem nodeIn_eq_getElem {nodes : List (Fields α)} {position : Nat} (h : position < nodes.length) :
    nodeIn nodes position = nodes[position] := by
  simp [nodeIn, h]

theorem idIn_append_of_lt {nodes others : List (Fields α)} {position : Nat}
    (h : position < nodes.length) : idIn (nodes ++ others) position = idIn nodes position := by
  rw [idIn, nodeIn_append_of_lt h, idIn]

@[simp] theorem idIn_append_self (nodes : List (Fields α)) (node : Fields α) :
    idIn (nodes ++ [node]) nodes.length = node.get "id" := by
  rw [idIn, nodeIn_append_self]

/-- The nodes of a list but the first, by their positions. -/
theorem map_nodeIn_range' (nodes : List (Fields α)) :
    (List.range' 1 (nodes.length - 1)).map (nodeIn nodes) = nodes.tail := by
  cases nodes with
  | nil => rfl
  | cons first rest =>
    refine List.ext_getElem (by simp) fun i hi hi' => ?_
    simp only [List.length_map, List.length_range'] at hi
    have hlt : 1 + i < (first :: rest).length := by
      rw [List.length_cons] at hi ⊢
      omega
    rw [List.getElem_map, List.getElem_range', Nat.one_mul, nodeIn_eq_getElem hlt]
    simp [Nat.add_comm 1 i]

/-- The ids of the nodes of a list, by their positions. -/
theorem map_id_eq (nodes : List (Fields α)) :
    nodes.map (·.get "id") = (List.range nodes.length).map (idIn nodes) := by
  refine List.ext_getElem (by simp) fun index hindex _ => ?_
  rw [List.length_map] at hindex
  rw [List.getElem_map, List.getElem_map, List.getElem_range, idIn, nodeIn_eq_getElem hindex]

/-! ## 2. Filling in a field -/

/-- One field of some nodes got a value, and nothing else changed. -/
structure Fills (name : String) (table result : NodeTable α) : Prop where
  names : result.names = table.names
  length : result.nodes.length = table.nodes.length
  others : ∀ position other, other ≠ name →
    (nodeIn result.nodes position).get? other = (nodeIn table.nodes position).get? other

namespace Fills

variable {name : String} {table next result : NodeTable α}

theorem refl (name : String) (table : NodeTable α) : Fills name table table :=
  ⟨rfl, rfl, fun _ _ _ => rfl⟩

theorem trans (h : Fills name table next) (h' : Fills name next result) : Fills name table result :=
  ⟨h'.names.trans h.names, h'.length.trans h.length,
    fun position other hne => (h'.others position other hne).trans (h.others position other hne)⟩

theorem get_eq (h : Fills name table result) (position : Nat) {other : String}
    (hne : other ≠ name) :
    (nodeIn result.nodes position).get other = (nodeIn table.nodes position).get other := by
  rw [Fields.get, h.others position other hne, Fields.get]

theorem idIn_eq (h : Fills name table result) (hname : "id" ≠ name) (position : Nat) :
    idIn result.nodes position = idIn table.nodes position :=
  h.get_eq position hname

end Fills

theorem nodeIn_set (table : NodeTable α) (position other : Nat) (name : String) (value : Value α) :
    nodeIn (table.set position name value).nodes other =
      if position = other ∧ position < table.nodes.length then
        (nodeIn table.nodes other).set name value
      else nodeIn table.nodes other := by
  simp only [NodeTable.set, nodeIn, List.getElem?_modify]
  by_cases heq : position = other
  · subst heq
    by_cases hlt : position < table.nodes.length
    · simp [hlt]
    · simp [hlt]
  · simp [heq]

theorem fills_set (table : NodeTable α) (position : Nat) (name : String) (value : Value α) :
    Fills name table (table.set position name value) := by
  refine ⟨rfl, by simp [NodeTable.set], fun other field hne => ?_⟩
  rw [nodeIn_set]
  split
  · exact Fields.get?_set_of_ne _ _ hne.symm
  · rfl

/-- The field that was set has the value. -/
theorem get_set (table : NodeTable α) {position : Nat} (hp : position < table.nodes.length)
    (other : Nat) (name : String) (value : Value α) :
    (nodeIn (table.set position name value).nodes other).get name =
      if position = other then value else (nodeIn table.nodes other).get name := by
  rw [nodeIn_set]
  by_cases heq : position = other
  · simp [heq, heq ▸ hp, Fields.get]
  · simp [heq]

/-! ## 3. Indexed tables -/

variable [Scalar α]

/-- The key of the node at a position of a list. -/
def keyIn (nodes : List (Fields α)) (position : Nat) : Key :=
  ((idIn nodes position).key.toOption).getD .null

theorem keyIn_append_of_lt {nodes others : List (Fields α)} {position : Nat}
    (h : position < nodes.length) : keyIn (nodes ++ others) position = keyIn nodes position := by
  rw [keyIn, idIn_append_of_lt h, keyIn]

theorem keyIn_append_self {node : Fields α} {key : Key} (h : (node.get "id").key = .ok key)
    (nodes : List (Fields α)) : keyIn (nodes ++ [node]) nodes.length = key := by
  rw [keyIn, idIn_append_self, h]
  rfl

/-- Every node stands in the index, at its position and under a key of its own. -/
structure Indexed (table : NodeTable α) : Prop where
  names : table.names =
    (List.range table.nodes.length).map fun position => (keyIn table.nodes position, position)
  key : ∀ position < table.nodes.length,
    (idIn table.nodes position).key = .ok (keyIn table.nodes position)
  inj : ∀ position < table.nodes.length, ∀ other < table.nodes.length,
    keyIn table.nodes position = keyIn table.nodes other → position = other
  given : ∀ position < table.nodes.length, (idIn table.nodes position).isNull = false

namespace Indexed

variable {table : NodeTable α}

theorem nodup (h : table.Indexed) : (table.names.map Prod.fst).Nodup := by
  rw [h.names, List.map_map]
  refine List.Nodup.map_on ?_ List.nodup_range
  intro position hp other ho heq
  exact h.inj position (List.mem_range.mp hp) other (List.mem_range.mp ho) heq

theorem mem_names_iff (h : table.Indexed) {key : Key} {position : Nat} :
    (key, position) ∈ table.names ↔
      position < table.nodes.length ∧ keyIn table.nodes position = key := by
  rw [h.names]
  simp only [List.mem_map, List.mem_range, Prod.mk.injEq]
  constructor
  · rintro ⟨other, hlt, hkey, rfl⟩
    exact ⟨hlt, hkey⟩
  · rintro ⟨hlt, hkey⟩
    exact ⟨position, hlt, hkey, rfl⟩

theorem keyIn_ne (h : table.Indexed) {key : Key} (hfresh : key ∉ table.names.map Prod.fst)
    {position : Nat} (hp : position < table.nodes.length) : keyIn table.nodes position ≠ key := by
  rintro rfl
  exact hfresh (List.mem_map.mpr ⟨_, h.mem_names_iff.mpr ⟨hp, rfl⟩, rfl⟩)

theorem sameName_iff (h : table.Indexed) {id : Value α} {position : Nat}
    (hp : position < table.nodes.length) :
    id.SameName (idIn table.nodes position) ↔ id.key = .ok (keyIn table.nodes position) := by
  constructor
  · rintro ⟨key, hid, hkey⟩
    rw [h.key position hp] at hkey
    rw [hid, hkey]
  · intro hid
    exact ⟨_, hid, h.key position hp⟩

/-- Every node has an id. -/
theorem require_id (h : table.Indexed) {position : Nat} (hp : position < table.nodes.length) :
    (nodeIn table.nodes position).require "id" = .ok (idIn table.nodes position) := by
  have hgiven := h.given position hp
  unfold idIn Fields.get at *
  unfold Fields.require
  cases hid : (nodeIn table.nodes position).get? "id" with
  | none => simp [hid, Value.isNull] at hgiven
  | some id => rfl

/-- Two nodes of an indexed table never have the same name. -/
theorem eq_of_sameName (h : table.Indexed) {position other : Nat}
    (hp : position < table.nodes.length) (ho : other < table.nodes.length)
    (hname : (idIn table.nodes position).SameName (idIn table.nodes other)) : position = other := by
  have hkey := (h.sameName_iff ho).mp hname
  rw [h.key position hp] at hkey
  exact h.inj position hp other ho (Except.ok.inj hkey)

/-- What is found is the position of the node with the name that is looked for. -/
theorem find_eq_ok_iff (h : table.Indexed) {id : Value α} {referrer : String} {position : Nat} :
    table.find id referrer = .ok position ↔
      position < table.nodes.length ∧ id.SameName (idIn table.nodes position) := by
  unfold find
  rw [bind_eq_ok]
  constructor
  · rintro ⟨key, hkey, hlook⟩
    cases hfound : key.lookup table.names with
    | none => simp [hfound] at hlook
    | some found =>
      rw [hfound] at hlook
      cases pure_eq_ok.mp hlook
      obtain ⟨hlt, hk⟩ := h.mem_names_iff.mp (Key.mem_of_lookup_eq_some hfound)
      exact ⟨hlt, (h.sameName_iff hlt).mpr (hk ▸ hkey)⟩
  · rintro ⟨hlt, hname⟩
    refine ⟨_, (h.sameName_iff hlt).mp hname, ?_⟩
    rw [(Key.lookup_eq_some_iff h.nodup).mpr (h.mem_names_iff.mpr ⟨hlt, rfl⟩)]
    rfl

theorem exists_find_iff (h : table.Indexed) {id : Value α} {referrer : String} :
    (∃ position, table.find id referrer = .ok position) ↔
      ∃ position < table.nodes.length, id.SameName (idIn table.nodes position) := by
  simp only [h.find_eq_ok_iff]

end Indexed

/-! ## 4. Making a table -/

/-- Every node has an id, and no two have the same. -/
structure OwnIds (nodes : List (Fields α)) : Prop where
  given : ∀ node ∈ nodes, (node.get "id").isNull = false
  isName : ∀ node ∈ nodes, ∃ key, (node.get "id").key = .ok key
  distinct : nodes.Pairwise fun node other => ¬ (node.get "id").SameName (other.get "id")

/-- Nodes have ids of their own in whatever order they stand. -/
theorem OwnIds.perm {nodes others : List (Fields α)} (h : OwnIds nodes) (hperm : others.Perm nodes) :
    OwnIds others where
  given node hnode := h.given node (hperm.mem_iff.mp hnode)
  isName node hnode := h.isName node (hperm.mem_iff.mp hnode)
  distinct := (hperm.pairwise_iff fun hne hname => hne hname.symm).mpr h.distinct

/-- The table with one more node. -/
theorem push_eq_ok_iff {table result : NodeTable α} {node : Fields α} :
    table.push (.obj node) = .ok result ↔
      (node.get "id").isNull = false ∧ ∃ key, (node.get "id").key = .ok key ∧
        key ∉ table.names.map Prod.fst ∧
        result = ⟨table.nodes ++ [node], table.names ++ [(key, table.nodes.length)]⟩ := by
  simp only [push, Value.fields, bind_eq_ok, Except.ok.injEq, exists_eq_left', check_eq_ok,
    Bool.not_eq_true, pure_eq_ok]
  refine and_congr_right fun _ => exists_congr fun key => and_congr_right fun _ => ?_
  rw [← Bool.not_eq_true, Key.isSome_lookup_iff]
  exact and_congr_right fun _ => eq_comm

theorem indexed_empty : (⟨[], []⟩ : NodeTable α).Indexed where
  names := rfl
  key := fun _ h => absurd h (Nat.not_lt_zero _)
  inj := fun _ h => absurd h (Nat.not_lt_zero _)
  given := fun _ h => absurd h (Nat.not_lt_zero _)

/-- A table stays indexed when a node is added. -/
theorem Indexed.push {table result : NodeTable α} {node : Fields α} (h : table.Indexed)
    (hpush : table.push (.obj node) = .ok result) :
    result.nodes = table.nodes ++ [node] ∧ result.Indexed := by
  obtain ⟨hgiven, key, hkey, hfresh, rfl⟩ := push_eq_ok_iff.mp hpush
  have hlast : keyIn (table.nodes ++ [node]) table.nodes.length = key :=
    keyIn_append_self hkey table.nodes
  -- a position of the longer list is one of the shorter list or the last one
  have hcases : ∀ position < (table.nodes ++ [node]).length,
      position < table.nodes.length ∨ position = table.nodes.length := by
    intro position hp
    rw [List.length_append, List.length_singleton] at hp
    exact Nat.lt_succ_iff_lt_or_eq.mp hp
  refine ⟨rfl, ?_, ?_, ?_, ?_⟩
  · show table.names ++ [(key, table.nodes.length)] =
      (List.range (table.nodes ++ [node]).length).map
        fun position => (keyIn (table.nodes ++ [node]) position, position)
    rw [List.length_append, List.length_singleton, List.range_succ, List.map_append,
      List.map_singleton, hlast, h.names]
    congr 1
    refine List.map_congr_left fun position hp => ?_
    rw [keyIn_append_of_lt (List.mem_range.mp hp)]
  · intro position hp
    rcases hcases position hp with hlt | rfl
    · rw [idIn_append_of_lt hlt, keyIn_append_of_lt hlt, h.key position hlt]
    · rw [idIn_append_self, hlast, hkey]
  · intro position hp other ho heq
    rcases hcases position hp with hlt | rfl <;> rcases hcases other ho with hlt' | rfl
    · rw [keyIn_append_of_lt hlt, keyIn_append_of_lt hlt'] at heq
      exact h.inj position hlt other hlt' heq
    · rw [keyIn_append_of_lt hlt, hlast] at heq
      exact absurd heq (h.keyIn_ne hfresh hlt)
    · rw [keyIn_append_of_lt hlt', hlast] at heq
      exact absurd heq.symm (h.keyIn_ne hfresh hlt')
    · rfl
  · intro position hp
    rcases hcases position hp with hlt | rfl
    · rw [idIn_append_of_lt hlt]
      exact h.given position hlt
    · rw [idIn_append_self]
      exact hgiven

theorem indexed_foldlM : ∀ (nodes : List (Fields α)) {table result : NodeTable α},
    table.Indexed → (nodes.map Value.obj).foldlM push table = .ok result →
      result.nodes = table.nodes ++ nodes ∧ result.Indexed
  | [], table, result, h, hfold => by
    cases pure_eq_ok.mp hfold
    exact ⟨(List.append_nil _).symm, h⟩
  | node :: rest, table, result, h, hfold => by
    rw [List.map_cons, List.foldlM_cons, bind_eq_ok] at hfold
    obtain ⟨next, hpush, hrest⟩ := hfold
    obtain ⟨hnodes, hnext⟩ := h.push hpush
    obtain ⟨hall, hresult⟩ := indexed_foldlM rest hnext hrest
    exact ⟨by rw [hall, hnodes, List.append_assoc, List.singleton_append], hresult⟩

/-- The table of a list has the nodes of the list, and it is indexed. -/
theorem indexed_ofNodes {nodes : List (Fields α)} {table : NodeTable α}
    (h : ofNodes (nodes.map .obj) = .ok table) : table.nodes = nodes ∧ table.Indexed :=
  indexed_foldlM nodes indexed_empty h

theorem Indexed.ownIds {table : NodeTable α} (h : table.Indexed) : OwnIds table.nodes := by
  refine ⟨?_, ?_, ?_⟩
  · intro node hnode
    obtain ⟨position, hp, rfl⟩ := List.getElem_of_mem hnode
    simpa [idIn, nodeIn_eq_getElem hp] using h.given position hp
  · intro node hnode
    obtain ⟨position, hp, rfl⟩ := List.getElem_of_mem hnode
    exact ⟨_, by simpa [idIn, nodeIn_eq_getElem hp] using h.key position hp⟩
  · rw [List.pairwise_iff_getElem]
    intro position other hp ho hlt hname
    have := h.eq_of_sameName hp ho (by simpa [idIn, nodeIn_eq_getElem, hp, ho] using hname)
    omega

/-- The id of a node that has another name than all before it is not in the index. -/
theorem Indexed.fresh {table : NodeTable α} (h : table.Indexed) {node : Fields α} {key : Key}
    (hother : ∀ other ∈ table.nodes, ¬ (other.get "id").SameName (node.get "id"))
    (hkey : (node.get "id").key = .ok key) : key ∉ table.names.map Prod.fst := by
  intro hmem
  obtain ⟨⟨_, position⟩, hentry, rfl⟩ := List.mem_map.mp hmem
  obtain ⟨hp, hkeyIn⟩ := h.mem_names_iff.mp hentry
  refine hother _ (List.getElem_mem hp) ⟨_, ?_, hkey⟩
  simpa [idIn, nodeIn_eq_getElem hp, hkeyIn] using h.key position hp

theorem exists_foldlM_of_ownIds : ∀ (nodes : List (Fields α)) {table : NodeTable α},
    table.Indexed → OwnIds (table.nodes ++ nodes) →
      ∃ result, (nodes.map Value.obj).foldlM push table = .ok result
  | [], table, _, _ => ⟨table, rfl⟩
  | node :: rest, table, h, hown => by
    obtain ⟨key, hkey⟩ := hown.isName node (by simp)
    have hother : ∀ other ∈ table.nodes, ¬ (other.get "id").SameName (node.get "id") :=
      fun other hmem =>
        (List.pairwise_append.mp hown.distinct).2.2 other hmem node List.mem_cons_self
    have hfresh := h.fresh hother hkey
    obtain ⟨next, hpush⟩ : ∃ next, table.push (.obj node) = .ok next :=
      ⟨_, push_eq_ok_iff.mpr ⟨hown.given node (by simp), key, hkey, hfresh, rfl⟩⟩
    obtain ⟨hnodes, hnext⟩ := h.push hpush
    obtain ⟨result, hresult⟩ := exists_foldlM_of_ownIds rest hnext
      (by rwa [hnodes, List.append_assoc, List.singleton_append])
    refine ⟨result, ?_⟩
    rw [List.map_cons, List.foldlM_cons, bind_eq_ok]
    exact ⟨next, hpush, hresult⟩

/-- **There is a table exactly of the lists in which every node has an id of its own.** -/
theorem exists_ofNodes_iff {nodes : List (Fields α)} :
    (∃ table, ofNodes (nodes.map .obj) = .ok table) ↔ OwnIds nodes := by
  constructor
  · rintro ⟨table, h⟩
    obtain ⟨hnodes, hindexed⟩ := indexed_ofNodes h
    exact hnodes ▸ hindexed.ownIds
  · exact fun h => exists_foldlM_of_ownIds nodes indexed_empty (by simpa using h)

/-- A table stays indexed when a field is filled in that is not the id. -/
theorem Fills.indexed {name : String} {table result : NodeTable α}
    (h : Fills name table result) (hname : "id" ≠ name) (hi : table.Indexed) :
    result.Indexed := by
  have hid := h.idIn_eq hname
  have hkey : ∀ position, keyIn result.nodes position = keyIn table.nodes position :=
    fun position => by rw [keyIn, hid, keyIn]
  refine ⟨?_, ?_, ?_, ?_⟩
  · rw [h.names, hi.names, h.length]
    exact List.map_congr_left fun position _ => by rw [hkey]
  · intro position hp
    rw [hid, hkey, hi.key position (h.length ▸ hp)]
  · intro position hp other ho heq
    rw [hkey, hkey] at heq
    exact hi.inj position (h.length ▸ hp) other (h.length ▸ ho) heq
  · intro position hp
    rw [hid]
    exact hi.given position (h.length ▸ hp)

end NodeTable
end SampledProfile
