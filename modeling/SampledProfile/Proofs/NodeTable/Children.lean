/-
# Lists of children

The children of a node are those that it lists and, where the first node of the table has no list,
the nodes that name it as their parent, in order (`childIds`).

* `listed_fillChildren`: this is what every node lists after `NodeTable.fillChildren`, and nothing
  else changes;
* `fillChildren_eq_ok_iff`: where nodes have lists or none, children can be had exactly when the
  first node has a list or every other node names a known node as its parent.

Linking one node to its parent is `link_eq_ok_iff`, and both facts follow by induction over the
nodes that are linked.
-/
import SampledProfile.Proofs.NodeTable.Hits

namespace SampledProfile
namespace NodeTable

open Outcome

variable {α : Type}

/-! ## 1. Linking one node -/

/-- The list of children that a node has after one more is linked to it, if it can take one. -/
inductive Takes (id : Value α) : Value α → Value α → Prop
  | first : Takes id .null (.list [id])
  | more (ids : List (Value α)) : Takes id (.list ids) (.list (ids ++ [id]))

theorem Takes.isList {id old value : Value α} (h : Takes id old value) :
    ∃ ids, value = .list ids := by
  cases h with
  | first => exact ⟨_, rfl⟩
  | more ids => exact ⟨_, rfl⟩

theorem exists_takes (id : Value α) {old : Value α} (h : old = .null ∨ ∃ ids, old = .list ids) :
    ∃ value, Takes id old value := by
  rcases h with rfl | ⟨ids, rfl⟩
  · exact ⟨_, .first⟩
  · exact ⟨_, .more ids⟩

variable [Scalar α]

/-- The ids that a node lists as its children. -/
def listed (node : Fields α) : List (Value α) :=
  (((node.get "children").orElse (.list [])).items.toOption).getD []

/-- The ids of the nodes, other than the first, that name the node at a position as parent. -/
def linked (nodes : List (Fields α)) (position : Nat) : List (Value α) :=
  (nodes.tail.filter fun node => (node.get "parent").SameName (idIn nodes position)).map
    (·.get "id")

/-- The ids of the children of the node at a position: those that it lists and, where the first
node has no list, those that name it as parent. -/
def childIds (nodes : List (Fields α)) (position : Nat) : List (Value α) :=
  listed (nodeIn nodes position) ++
    if ((nodeIn nodes 0).get "children").isNull then linked nodes position else []

theorem listed_of_list {node : Fields α} {ids : List (Value α)}
    (h : node.get "children" = .list ids) : listed node = ids := by
  cases ids with
  | nil => simp [listed, h, Value.orElse, Value.truthy, Value.items, Except.toOption]
  | cons id rest => simp [listed, h, Value.orElse, Value.truthy, Value.items, Except.toOption]

theorem listed_of_null {node : Fields α} (h : node.get "children" = .null) : listed node = [] := by
  simp [listed, h, Value.orElse, Value.truthy, Value.items, Except.toOption]

theorem listed_congr {node other : Fields α} (h : node.get "children" = other.get "children") :
    listed node = listed other := by
  rw [listed, h, listed]

/-- A node is linked to the one node that it names as parent, which takes its id. -/
theorem link_eq_ok_iff {table result : NodeTable α} (h : table.Indexed) {position : Nat}
    (hp : position < table.nodes.length) :
    table.link position = .ok result ↔
      ∃ above < table.nodes.length,
        ((nodeIn table.nodes position).get "parent").SameName (idIn table.nodes above) ∧
        ∃ value,
          Takes (idIn table.nodes position) ((nodeIn table.nodes above).get "children") value ∧
          result = table.set above "children" value := by
  have hrequire := h.require_id hp
  simp only [link, nodeAt_eq]
  cases hparent : (nodeIn table.nodes position).get? "parent" with
  | none =>
    have hnull : (nodeIn table.nodes position).get "parent" = .null := by simp [Fields.get, hparent]
    simp only [hnull, bind_eq_ok, throw_ne_ok, and_false, exists_false, false_iff]
    rintro ⟨above, ha, hname, -⟩
    exact Value.not_sameName_null (h.given above ha) rfl hname
  | some parent =>
    have hget : (nodeIn table.nodes position).get "parent" = parent := by simp [Fields.get, hparent]
    simp only [hrequire, hget, bind_eq_ok, Except.ok.injEq, exists_eq_left', h.find_eq_ok_iff]
    refine exists_congr fun above => ?_
    rw [and_assoc]
    refine and_congr_right fun _ => and_congr_right fun _ => ?_
    constructor
    · intro hres
      split at hres
      · rename_i hc
        exact ⟨_, hc ▸ .first, (pure_eq_ok.mp hres).symm⟩
      · rename_i ids hc
        exact ⟨_, hc ▸ .more ids, (pure_eq_ok.mp hres).symm⟩
      · exact absurd hres throw_ne_ok
    · rintro ⟨value, htakes, rfl⟩
      generalize (nodeIn table.nodes above).get "children" = old at htakes
      cases htakes with
      | first => rfl
      | more ids => rfl

theorem fills_link {table result : NodeTable α} (h : table.Indexed) {position : Nat}
    (hp : position < table.nodes.length) (hlink : table.link position = .ok result) :
    Fills "children" table result := by
  obtain ⟨above, -, -, value, -, rfl⟩ := (link_eq_ok_iff h hp).mp hlink
  exact fills_set _ _ _ _

/-- Linking a node adds its id to the list of the node that it names as parent. -/
theorem listed_link {table result : NodeTable α} (h : table.Indexed) {position : Nat}
    (hp : position < table.nodes.length) (hlink : table.link position = .ok result) {other : Nat}
    (ho : other < table.nodes.length) :
    listed (nodeIn result.nodes other) = listed (nodeIn table.nodes other) ++
      if ((nodeIn table.nodes position).get "parent").SameName (idIn table.nodes other) then
        [idIn table.nodes position] else [] := by
  obtain ⟨above, ha, hname, value, htakes, rfl⟩ := (link_eq_ok_iff h hp).mp hlink
  have hget := get_set table ha other "children" value
  by_cases heq : above = other
  · subst heq
    rw [if_pos rfl] at hget
    rw [if_pos hname]
    generalize hold : (nodeIn table.nodes above).get "children" = old at htakes
    cases htakes with
    | first => rw [listed_of_list hget, listed_of_null hold, List.nil_append]
    | more ids => rw [listed_of_list hget, listed_of_list hold]
  · rw [if_neg heq] at hget
    have hnot : ¬ ((nodeIn table.nodes position).get "parent").SameName (idIn table.nodes other) :=
      fun hother => heq (h.eq_of_sameName ha ho (hname.symm.trans hother))
    rw [if_neg hnot, List.append_nil, listed_congr hget]

/-! ## 2. Linking all nodes -/

/-- Linking some nodes adds to every list the ids of those of them that name its node. -/
theorem listed_linkAll : ∀ (positions : List Nat) {table : NodeTable α}, table.Indexed →
    (∀ position ∈ positions, position < table.nodes.length) →
    (table.linkAll positions).2 = .ok () →
      Fills "children" table (table.linkAll positions).1 ∧
      ∀ other < table.nodes.length,
        listed (nodeIn (table.linkAll positions).1.nodes other) =
          listed (nodeIn table.nodes other) ++
            (positions.filter fun position =>
              ((nodeIn table.nodes position).get "parent").SameName (idIn table.nodes other)).map
                (idIn table.nodes)
  | [], table, _, _, _ => ⟨.refl _ _, fun _ _ => by simp [linkAll]⟩
  | position :: rest, table, h, hlt, hok => by
    have hp := hlt position List.mem_cons_self
    cases hlink : table.link position with
    | error fault => simp [linkAll, hlink] at hok
    | ok next =>
      have hfills := fills_link h hp hlink
      simp only [linkAll, hlink] at hok ⊢
      obtain ⟨hrest, hlists⟩ := listed_linkAll rest (hfills.indexed (by decide) h)
        (fun other ho => hfills.length ▸ hlt other (List.mem_cons_of_mem _ ho)) hok
      refine ⟨hfills.trans hrest, fun other ho => ?_⟩
      rw [hlists other (hfills.length ▸ ho), listed_link h hp hlink ho]
      have hid : idIn next.nodes = idIn table.nodes := funext (hfills.idIn_eq (by decide))
      have hparent : ∀ q,
          (nodeIn next.nodes q).get "parent" = (nodeIn table.nodes q).get "parent" :=
        fun q => hfills.get_eq q (by decide)
      simp only [hid, hparent, List.filter_cons, decide_eq_true_eq]
      split <;> simp

/-- The node at a position has a list of children, or none at all. -/
def ListsOrNot (nodes : List (Fields α)) (position : Nat) : Prop :=
  (nodeIn nodes position).get "children" = .null ∨
    ∃ ids, (nodeIn nodes position).get "children" = .list ids

theorem ListsOrNot.link {table result : NodeTable α} (h : table.Indexed) {position : Nat}
    (hp : position < table.nodes.length) (hlink : table.link position = .ok result) {other : Nat}
    (ho : ListsOrNot table.nodes other) : ListsOrNot result.nodes other := by
  obtain ⟨above, ha, -, value, htakes, rfl⟩ := (link_eq_ok_iff h hp).mp hlink
  have hget := get_set table ha other "children" value
  by_cases heq : above = other
  · rw [if_pos heq] at hget
    obtain ⟨ids, rfl⟩ := htakes.isList
    exact .inr ⟨ids, hget⟩
  · rw [if_neg heq] at hget
    exact ho.imp hget.trans (fun ⟨ids, hids⟩ => ⟨ids, hget.trans hids⟩)

/-- Where all nodes have lists of children or none, nodes can be linked exactly when they name
known nodes as their parents. -/
theorem linkAll_eq_ok_iff : ∀ (positions : List Nat) {table : NodeTable α}, table.Indexed →
    (∀ position ∈ positions, position < table.nodes.length) →
    (∀ position < table.nodes.length, ListsOrNot table.nodes position) →
    ((table.linkAll positions).2 = .ok () ↔
      ∀ position ∈ positions, Known table.nodes ((nodeIn table.nodes position).get "parent"))
  | [], table, _, _, _ => by simp [linkAll]
  | position :: rest, table, h, hlt, hlists => by
    have hp := hlt position List.mem_cons_self
    simp only [linkAll, List.forall_mem_cons]
    cases hlink : table.link position with
    | error fault =>
      simp only [reduceCtorEq, false_iff, not_and]
      rintro ⟨above, ha, hname⟩
      exfalso
      obtain ⟨value, htakes⟩ := exists_takes (idIn table.nodes position) (hlists above ha)
      rw [(link_eq_ok_iff h hp).mpr ⟨above, ha, hname, value, htakes, rfl⟩] at hlink
      cases hlink
    | ok next =>
      have hfills := fills_link h hp hlink
      obtain ⟨above, ha, hname, -⟩ := (link_eq_ok_iff h hp).mp hlink
      have hknown : Known table.nodes ((nodeIn table.nodes position).get "parent") :=
        ⟨above, ha, hname⟩
      show (next.linkAll rest).2 = .ok () ↔ _
      rw [linkAll_eq_ok_iff rest (hfills.indexed (by decide) h)
        (fun other ho => hfills.length ▸ hlt other (List.mem_cons_of_mem _ ho))
        (fun other ho => (hlists other (hfills.length ▸ ho)).link h hp hlink)]
      simp only [hfills.known_iff (by decide), hknown, true_and]
      exact forall₂_congr fun other _ => by rw [hfills.get_eq other (by decide)]

theorem linked_eq (nodes : List (Fields α)) (position : Nat) :
    linked nodes position =
      ((List.range' 1 (nodes.length - 1)).filter fun other =>
        ((nodeIn nodes other).get "parent").SameName (idIn nodes position)).map (idIn nodes) := by
  rw [linked, ← map_nodeIn_range', List.filter_map, List.map_map]
  rfl

/-- Nodes keep their lists, and stay without one where they are not linked to. -/
theorem listsOrNot_linkAll : ∀ (positions : List Nat) {table : NodeTable α}, table.Indexed →
    (∀ position ∈ positions, position < table.nodes.length) →
    (table.linkAll positions).2 = .ok () → ∀ other, ListsOrNot table.nodes other →
      ListsOrNot (table.linkAll positions).1.nodes other ∧
        (((nodeIn table.nodes other).get "children").isNull = false →
          ((nodeIn (table.linkAll positions).1.nodes other).get "children").isNull = false)
  | [], _, _, _, _, _, hlists => ⟨hlists, id⟩
  | position :: rest, table, h, hlt, hok, other, hlists => by
    have hp := hlt position List.mem_cons_self
    cases hlink : table.link position with
    | error fault => simp [linkAll, hlink] at hok
    | ok next =>
      have hfills := fills_link h hp hlink
      simp only [linkAll, hlink] at hok ⊢
      obtain ⟨hnext, hgiven⟩ := listsOrNot_linkAll rest (hfills.indexed (by decide) h)
        (fun other ho => hfills.length ▸ hlt other (List.mem_cons_of_mem _ ho)) hok
        other (hlists.link h hp hlink)
      refine ⟨hnext, fun hold => hgiven ?_⟩
      obtain ⟨above, ha, -, value, htakes, rfl⟩ := (link_eq_ok_iff h hp).mp hlink
      rw [get_set table ha]
      split
      · obtain ⟨ids, rfl⟩ := htakes.isList
        rfl
      · exact hold

/-- What is filled in elsewhere does not change the children that a node is said to have. -/
theorem Fills.childIds_eq {name : String} {table result : NodeTable α} (h : Fills name table result)
    (hid : "id" ≠ name) (hparent : "parent" ≠ name) (hchildren : "children" ≠ name)
    (position : Nat) : childIds result.nodes position = childIds table.nodes position := by
  have hids : idIn result.nodes = idIn table.nodes := funext (h.idIn_eq hid)
  simp only [childIds, linked_eq, h.length, hids, h.get_eq _ hparent, h.get_eq _ hchildren,
    listed_congr (h.get_eq position hchildren)]

/-! ## 3. Either way of giving children -/

/-- Where the first node has a list, all lists stay as they are. -/
theorem fillChildren_of_given {table : NodeTable α} (hne : table.nodes ≠ [])
    (hgiven : ((nodeIn table.nodes 0).get "children").isNull = false) :
    table.fillChildren = (table, .ok ()) := by
  cases hnodes : table.nodes with
  | nil => exact absurd hnodes hne
  | cons first rest =>
    have hfirst : nodeIn table.nodes 0 = first := by simp [nodeIn, hnodes]
    rw [hfirst] at hgiven
    simp [fillChildren, hnodes, hgiven]

/-- Where it has none, it is given an empty one and the other nodes are linked. -/
theorem fillChildren_of_null {table : NodeTable α} (hne : table.nodes ≠ [])
    (hnull : ((nodeIn table.nodes 0).get "children").isNull = true) :
    table.fillChildren =
      (table.set 0 "children" (.list [])).linkAll (List.range' 1 (table.nodes.length - 1)) := by
  cases hnodes : table.nodes with
  | nil => exact absurd hnodes hne
  | cons first rest =>
    have hfirst : nodeIn table.nodes 0 = first := by simp [nodeIn, hnodes]
    rw [hfirst] at hnull
    simp [fillChildren, hnodes, hnull]

theorem nodes_ne_nil_of_fillChildren {table : NodeTable α}
    (hok : table.fillChildren.2 = .ok ()) : table.nodes ≠ [] := by
  intro hnodes
  simp [fillChildren, hnodes] at hok

/-- The first node listed as having no children lists what it listed before. -/
theorem listed_set_first {table : NodeTable α} (hne : table.nodes ≠ [])
    (hnull : ((nodeIn table.nodes 0).get "children").isNull = true) (position : Nat) :
    listed (nodeIn (table.set 0 "children" (.list [])).nodes position) =
      listed (nodeIn table.nodes position) := by
  have hget := get_set table (List.length_pos_of_ne_nil hne) position "children" (.list [])
  by_cases heq : 0 = position
  · subst heq
    rw [if_pos rfl] at hget
    rw [listed_of_list hget, listed_of_null (Value.eq_null_of_isNull hnull)]
  · rw [if_neg heq] at hget
    exact listed_congr hget

omit [Scalar α] in
theorem listsOrNot_set_first {table : NodeTable α}
    (hlists : ∀ position < table.nodes.length, ListsOrNot table.nodes position)
    (hpos : 0 < table.nodes.length) {position : Nat} (hp : position < table.nodes.length) :
    ListsOrNot (table.set 0 "children" (.list [])).nodes position := by
  have hget := get_set table hpos position "children" (.list [])
  by_cases heq : 0 = position
  · rw [if_pos heq] at hget
    exact .inr ⟨[], hget⟩
  · rw [if_neg heq] at hget
    exact (hlists position hp).imp hget.trans (fun ⟨ids, hids⟩ => ⟨ids, hget.trans hids⟩)

/-- **After children are filled in, every node lists what `childIds` describes.** -/
theorem listed_fillChildren {table : NodeTable α} (h : table.Indexed)
    (hok : table.fillChildren.2 = .ok ()) :
    Fills "children" table table.fillChildren.1 ∧
      ∀ position < table.nodes.length,
        listed (nodeIn table.fillChildren.1.nodes position) = childIds table.nodes position := by
  have hne := nodes_ne_nil_of_fillChildren hok
  cases hnull : ((nodeIn table.nodes 0).get "children").isNull with
  | false =>
    rw [fillChildren_of_given hne hnull]
    exact ⟨.refl _ _, fun position _ => by simp [childIds, hnull]⟩
  | true =>
    rw [fillChildren_of_null hne hnull] at hok ⊢
    have hset := fills_set table 0 "children" (.list [])
    obtain ⟨hfills, hlists⟩ := listed_linkAll _ (hset.indexed (by decide) h)
      (fun position hp => by rw [List.mem_range'_1] at hp; rw [hset.length]; omega) hok
    refine ⟨hset.trans hfills, fun position hp => ?_⟩
    have hid : idIn (table.set 0 "children" (.list [])).nodes = idIn table.nodes :=
      funext (hset.idIn_eq (by decide))
    have hparent : ∀ other, (nodeIn (table.set 0 "children" (.list [])).nodes other).get "parent" =
        (nodeIn table.nodes other).get "parent" := fun other => hset.get_eq other (by decide)
    rw [hlists position (hset.length ▸ hp), listed_set_first hne hnull, childIds, hnull, if_pos rfl,
      linked_eq, hid]
    simp only [hparent]

/-- **Where all nodes have lists of children or none, children can be had exactly when the first
node has a list or every other node names a known node as its parent.** -/
theorem fillChildren_eq_ok_iff {table : NodeTable α} (h : table.Indexed)
    (hlists : ∀ position < table.nodes.length, ListsOrNot table.nodes position) :
    table.fillChildren.2 = .ok () ↔
      table.nodes ≠ [] ∧ (((nodeIn table.nodes 0).get "children").isNull = false ∨
        ∀ node ∈ table.nodes.tail, Known table.nodes (node.get "parent")) := by
  by_cases hne : table.nodes = []
  · simp [fillChildren, hne]
  cases hnull : ((nodeIn table.nodes 0).get "children").isNull with
  | false => simp [fillChildren_of_given hne hnull, hne]
  | true =>
    have hset := fills_set table 0 "children" (.list [])
    have hsetLists : ∀ position < (table.set 0 "children" (.list [])).nodes.length,
        ListsOrNot (table.set 0 "children" (.list [])).nodes position := fun position hp =>
      listsOrNot_set_first hlists (List.length_pos_of_ne_nil hne) (hset.length ▸ hp)
    rw [fillChildren_of_null hne hnull, linkAll_eq_ok_iff _ (hset.indexed (by decide) h)
      (fun position hp => by rw [List.mem_range'_1] at hp; rw [hset.length]; omega) hsetLists,
      ← map_nodeIn_range', List.forall_mem_map]
    simp only [hset.known_iff (by decide), hset.get_eq _ (show "parent" ≠ "children" by decide),
      hne, ne_eq, not_false_eq_true, true_and, Bool.true_eq_false, false_or]

/-- Where nodes had lists of children or none they still do, and the first node has one. -/
theorem listsOrNot_fillChildren {table : NodeTable α} (h : table.Indexed)
    (hlists : ∀ position < table.nodes.length, ListsOrNot table.nodes position)
    (hok : table.fillChildren.2 = .ok ()) :
    (∀ position < table.nodes.length, ListsOrNot table.fillChildren.1.nodes position) ∧
      ((nodeIn table.fillChildren.1.nodes 0).get "children").isNull = false := by
  have hne := nodes_ne_nil_of_fillChildren hok
  cases hnull : ((nodeIn table.nodes 0).get "children").isNull with
  | false =>
    rw [fillChildren_of_given hne hnull]
    exact ⟨hlists, hnull⟩
  | true =>
    have hset := fills_set table 0 "children" (.list [])
    rw [fillChildren_of_null hne hnull] at hok ⊢
    have hrange : ∀ position ∈ List.range' 1 (table.nodes.length - 1),
        position < (table.set 0 "children" (.list [])).nodes.length := fun position hp => by
      rw [List.mem_range'_1] at hp
      rw [hset.length]
      omega
    have hall := listsOrNot_linkAll _ (hset.indexed (by decide) h) hrange hok
    have hpos := List.length_pos_of_ne_nil hne
    refine ⟨fun position hp => (hall position (listsOrNot_set_first hlists hpos hp)).1, ?_⟩
    refine (hall 0 (listsOrNot_set_first hlists hpos hpos)).2 ?_
    rw [get_set table hpos, if_pos rfl]
    rfl

end NodeTable
end SampledProfile
