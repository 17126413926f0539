/-
# Children by lists and by parents

A list of nodes can say in two ways which nodes are the children of which: every node lists the ids of
its children, or every node but the first names its parent and none lists children.

* `Contraction.ListsInOrder`: the lists make a tree, and siblings are listed as they stand;
* `Contraction.ParentsOf`: other nodes say the same by parents;
* `Contraction.exists_below`: **then the nodes that name a node as parent are those that it listed, in
  the same order**, wherever in the list the parent stands;
* **`Contraction.ofNodes_parents`: both contract to the same, or fail for the same reason.**
-/
import Mathlib.Data.List.Sort
import SampledProfile.Proofs.Contraction.Accepted
import SampledProfile.Proofs.Contraction.Alike

namespace SampledProfile
namespace Contraction

open Outcome NodeTable

variable {α : Type} [Scalar α]

/-! ## 1. Two ways to say the same -/

/-- The node of the first name stands before that of the second. -/
def StandsBefore (nodes : List (Fields α)) (id later : Value α) : Prop :=
  ∀ first < nodes.length, ∀ second < nodes.length, id.SameName (idIn nodes first) →
    later.SameName (idIn nodes second) → first < second

instance (nodes : List (Fields α)) : DecidableRel (StandsBefore nodes) := fun id later =>
  inferInstanceAs (Decidable (∀ first < nodes.length, ∀ second < nodes.length,
    id.SameName (idIn nodes first) → later.SameName (idIn nodes second) → first < second))

/-- The nodes have lists of children, or none, and these make a tree over the first node.  Siblings
are listed in the order in which their nodes stand. -/
structure ListsInOrder (nodes : List (Fields α)) : Prop where
  own : OwnIds nodes
  lists : ∀ position < nodes.length, ListsOrNot nodes position
  known : ∀ position < nodes.length, ∀ id ∈ listed (nodeIn nodes position), Known nodes id
  tree : ListsTree ⟨nodes, []⟩
  order : ∀ position < nodes.length,
    (listed (nodeIn nodes position)).Pairwise (StandsBefore nodes)

/-- The other nodes have no lists of children.  Every one but the first names as its parent the node
by which it was listed, and nothing else is different. -/
structure ParentsOf (nodes others : List (Fields α)) : Prop where
  same : List.Forall₂ (Fields.Same linkFields) nodes others
  listless : ∀ node ∈ others, Fields.get? node "children" = none
  parent : ∀ above < nodes.length, ∀ position < nodes.length,
    (∃ id ∈ listed (nodeIn nodes above), id.SameName (idIn nodes position)) →
      ((nodeIn others position).get "parent").SameName (idIn nodes above)

/-! ## 2. The same children in the same order -/

theorem findAll_of_names {table : NodeTable α} (hi : table.Indexed) {ids : List (Value α)}
    {positions : List Nat} (h : Names table.nodes ids positions) (referrer : String) :
    table.findAll ids referrer = .ok positions :=
  mapM_eq_ok_iff.mpr (h.imp fun _ _ hname => hi.find_eq_ok_iff.mpr hname)

/-- Every node has the name that it has. -/
theorem names_map_idIn {table : NodeTable α} (hi : table.Indexed) {positions : List Nat}
    (hlt : ∀ position ∈ positions, position < table.nodes.length) :
    Names table.nodes (positions.map (idIn table.nodes)) positions := by
  rw [Names, List.forall₂_map_left_iff, List.forall₂_same]
  exact fun position hp => ⟨hlt position hp, _, hi.key position (hlt position hp),
    hi.key position (hlt position hp)⟩

/-- Where ids are listed in the order of the nodes that they name, these stand in order. -/
theorem Names.pairwise {nodes : List (Fields α)} {ids : List (Value α)} {positions : List Nat}
    (h : Names nodes ids positions) (horder : ids.Pairwise (StandsBefore nodes)) :
    positions.Pairwise (· < ·) := by
  induction h with
  | nil => exact .nil
  | @cons id position ids positions hid hrest ih =>
    obtain ⟨hfirst, hlater⟩ := List.pairwise_cons.mp horder
    refine List.pairwise_cons.mpr ⟨fun other hother => ?_, ih hlater⟩
    obtain ⟨hlt, later, hmem, hname⟩ := Names.exists_of_mem hrest hother
    exact hfirst later hmem position hid.1 other hlt hid.2 hname

section Below

variable {table : NodeTable α} {others : List (Fields α)}

/-- Every node but the first is listed by some node. -/
theorem ListsInOrder.exists_lister {nodes : List (Fields α)} (h : ListsInOrder nodes)
    {position : Nat} (hp : position < nodes.length) (hpos : position ≠ 0) :
    ∃ above < nodes.length, ∃ id ∈ listed (nodeIn nodes above),
      id.SameName (idIn nodes position) := by
  have hcount := h.tree.once position hp
  rw [if_neg hpos] at hcount
  obtain ⟨id, hid, hname⟩ := List.countP_pos_iff.mp (hcount ▸ Nat.zero_lt_one)
  obtain ⟨above, habove, hid⟩ := List.mem_flatMap.mp hid
  exact ⟨above, List.mem_range.mp habove, id, hid, by simpa using hname⟩

/-- The first node is listed by none. -/
theorem ListsInOrder.ne_zero {nodes : List (Fields α)} (h : ListsInOrder nodes) {above : Nat}
    (habove : above < nodes.length) {id : Value α} (hid : id ∈ listed (nodeIn nodes above))
    {position : Nat} (hname : id.SameName (idIn nodes position)) : position ≠ 0 := by
  rintro rfl
  have hcount := h.tree.once 0 (Nat.zero_lt_of_lt habove)
  rw [if_pos rfl, List.countP_eq_zero] at hcount
  exact hcount id (List.mem_flatMap.mpr ⟨above, List.mem_range.mpr habove, hid⟩)
    (decide_eq_true hname)

theorem exists_names {nodes : List (Fields α)}
    (hknown : ∀ position < nodes.length, ∀ id ∈ listed (nodeIn nodes position), Known nodes id) :
    ∃ below : Nat → List Nat, ∀ position < nodes.length,
      Names nodes (listed (nodeIn nodes position)) (below position) := by
  have hnames : ∀ position < nodes.length, ∃ positions,
      Names nodes (listed (nodeIn nodes position)) positions := by
    intro position hp
    have hids := hknown position hp
    choose! named hnamed using hids
    refine ⟨(listed (nodeIn nodes position)).map named, ?_⟩
    rw [Names, List.forall₂_map_right_iff, List.forall₂_same]
    exact hnamed
  choose! below hbelow using hnames
  exact ⟨below, hbelow⟩

/-- **The nodes that name a node as parent are those that it listed, in the same order.** -/
theorem exists_below (hi : table.Indexed) (h : ListsInOrder table.nodes)
    (h' : ParentsOf table.nodes others) : ∃ below : Nat → List Nat,
      ∀ position < table.nodes.length,
        Names table.nodes (listed (nodeIn table.nodes position)) (below position) ∧
        linked others position = (below position).map (idIn table.nodes) := by
  obtain ⟨below, hbelow⟩ := exists_names h.known
  refine ⟨below, fun position hp => ⟨hbelow position hp, ?_⟩⟩
  have hids : idIn others = idIn table.nodes :=
    funext fun place => (same_nodeIn h'.same place).get (by decide)
  rw [linked_eq, hids, ← h'.same.length_eq]
  congr 1
  refine List.Pairwise.eq_of_mem_iff (r := (· < ·)) (List.Pairwise.filter _ List.pairwise_lt_range')
    ((hbelow position hp).pairwise (h.order position hp)) fun child => ?_
  rw [List.mem_filter, List.mem_range'_1, decide_eq_true_eq]
  constructor
  · rintro ⟨hchild, hparent⟩
    have hlt : child < table.nodes.length := by omega
    obtain ⟨above, habove, id, hid, hname⟩ := h.exists_lister hlt (by omega)
    obtain rfl : above = position := hi.eq_of_sameName habove hp
      ((h'.parent above habove child hlt ⟨id, hid, hname⟩).symm.trans hparent)
    exact (hbelow above hp).mem hi hid hlt hname
  · intro hchild
    obtain ⟨hlt, id, hid, hname⟩ := (hbelow position hp).exists_of_mem hchild
    have hne := h.ne_zero hp hid hname
    exact ⟨by omega, h'.parent position hp child hlt ⟨id, hid, hname⟩⟩

end Below

/-! ## 3. What both contract to -/

/-- What is found for the children of a node is found for the ids that it lists. -/
theorem childPositions_eq {table : NodeTable α} {position : Nat}
    (h : ListsOrNot table.nodes position) (id : Value α) :
    childPositions table (nodeIn table.nodes position) id =
      table.findAll (listed (nodeIn table.nodes position)) (referrer id) := by
  have hitems : (((nodeIn table.nodes position).get "children").orElse (.list [])).items =
      .ok (listed (nodeIn table.nodes position)) := by
    rcases h with hnull | ⟨ids, hids⟩
    · rw [listed_of_null hnull, hnull]
      rfl
    · rw [listed_of_list hids, hids]
      cases ids <;> rfl
  rw [childPositions, hitems, ok_bind]

theorem items_of_listsOrNot {nodes : List (Fields α)} {position : Nat}
    (h : ListsOrNot nodes position)
    (hgiven : ((nodeIn nodes position).get "children").isNull = false) :
    ((nodeIn nodes position).get "children").items = .ok (listed (nodeIn nodes position)) := by
  rcases h with hnull | ⟨ids, hids⟩
  · rw [hnull] at hgiven
    cases hgiven
  · rw [listed_of_list hids, hids]
    rfl

omit [Scalar α] in
theorem length_pos_of_given {nodes : List (Fields α)}
    (h : ((nodeIn nodes 0).get "children").isNull = false) : 0 < nodes.length := by
  by_contra hempty
  simp [nodeIn, hempty, Fields.get, Fields.get?, Value.isNull] at h

/-- Tables that are the same but for their links, with lists that lead to the same nodes, read the
same. -/
theorem readsAs_of_below {table other : NodeTable α} (hagree : Agree linkFields table other)
    (hlists : ∀ position < table.nodes.length, ListsOrNot table.nodes position)
    (hlists' : ∀ position < table.nodes.length, ListsOrNot other.nodes position)
    (hgiven : ((nodeIn table.nodes 0).get "children").isNull = false)
    (hgiven' : ((nodeIn other.nodes 0).get "children").isNull = false)
    (hfind : ∀ position < table.nodes.length, ∀ referrer,
      other.findAll (listed (nodeIn other.nodes position)) referrer =
        table.findAll (listed (nodeIn table.nodes position)) referrer) :
    ReadsAs table other := by
  refine ⟨hagree, fun position id => ?_, hgiven'.trans hgiven.symm, fun referrer => ?_⟩
  · by_cases hp : position < table.nodes.length
    · rw [childPositions_eq (hlists position hp), childPositions_eq (hlists' position hp),
        hfind position hp]
    · have hp' : ¬ position < other.nodes.length := hagree.length ▸ hp
      simp [nodeIn, hp, hp', childPositions, hagree.findAll_eq]
  · have hpos := length_pos_of_given hgiven
    rw [items_of_listsOrNot (hlists 0 hpos) hgiven, items_of_listsOrNot (hlists' 0 hpos) hgiven',
      ok_bind, ok_bind, hfind 0 hpos]

section Contracts

variable {table other : NodeTable α}

theorem ParentsOf.children_eq_null {nodes others : List (Fields α)} (h : ParentsOf nodes others)
    (position : Nat) : (nodeIn others position).get "children" = .null := by
  by_cases hp : position < others.length
  · rw [nodeIn_eq_getElem hp, Fields.get, h.listless _ (List.getElem_mem hp)]
    rfl
  · simp [nodeIn, hp, Fields.get, Fields.get?]

/-- Children can be filled in, as every parent is known. -/
theorem fillChildren_eq_ok_of_parents (hi : table.Indexed) (h : ListsInOrder table.nodes)
    (h' : ParentsOf table.nodes other.nodes) (hagree : Agree linkFields table other)
    (samples : Value α) : (other.fillHits samples).1.fillChildren.2 = .ok () := by
  have hi' : other.Indexed := hagree.indexed (by decide) hi
  refine (fillChildren_fillHits_iff hi' samples fun position _ =>
    .inl (h'.children_eq_null position)).mpr ⟨?_, .inr ?_⟩
  · exact List.length_pos_iff.mp (hagree.length ▸ length_pos_of_given h.tree.given)
  · rw [← map_nodeIn_range', List.forall_mem_map]
    intro position hp
    rw [List.mem_range'_1, hagree.length] at hp
    have hlt : position < table.nodes.length := by omega
    obtain ⟨above, habove, hlisted⟩ := h.exists_lister hlt (by omega)
    refine (hagree.known_iff (by decide)).mpr ⟨above, habove, ?_⟩
    exact h'.parent above habove position hlt hlisted

/-- **After children are filled in, every node has those that name it as parent, each once and in the
order in which they stand, and they are the ones that it listed.** -/
theorem listed_of_parents (hi : table.Indexed) (h : ListsInOrder table.nodes)
    (h' : ParentsOf table.nodes other.nodes) (hagree : Agree linkFields table other)
    (samples : Value α) {position : Nat} (hp : position < table.nodes.length) :
    listed (nodeIn (filledTable other samples).nodes position) = linked other.nodes position ∧
      (linked other.nodes position).Pairwise (fun id later => ¬ id.SameName later) ∧
      List.Forall₂ Value.SameName (listed (nodeIn table.nodes position))
        (linked other.nodes position) := by
  have hi' : other.Indexed := hagree.indexed (by decide) hi
  have hfills := fills_fillHits other samples
  obtain ⟨-, hlisted⟩ := listed_fillChildren (hfills.indexed (by decide) hi')
    (fillChildren_eq_ok_of_parents hi h h' hagree samples)
  have hnull := h'.children_eq_null
  refine ⟨?_, ?_, ?_⟩
  · rw [filledTable, hlisted position (by rw [hfills.length, hagree.length]; exact hp),
      hfills.childIds_eq (by decide) (by decide) (by decide), childIds, hnull,
      listed_of_null (hnull position), List.nil_append]
    rfl
  · exact List.pairwise_map.mpr ((hi'.ownIds.distinct.tail).filter _)
  · obtain ⟨below, hbelow⟩ := exists_below hi h h'
    obtain ⟨hnames, hlinked⟩ := hbelow position hp
    rw [hlinked, List.forall₂_map_right_iff]
    exact hnames.imp fun _ _ hname => hname.2

/-- The tables that are filled in read the same. -/
theorem readsAs_of_parents (hi : table.Indexed) (h : ListsInOrder table.nodes)
    (h' : ParentsOf table.nodes other.nodes) (hagree : Agree linkFields table other)
    (samples : Value α) :
    (table.fillHits samples).1.fillChildren.2 = .ok () ∧
      ReadsAs (filledTable table samples) (filledTable other samples) := by
  have hi' : other.Indexed := hagree.indexed (by decide) hi
  have hok := fillChildren_eq_ok_of_parents hi h h' hagree samples
  have hfills := fills_fillHits table samples
  have hfills' := fills_fillHits other samples
  have hchildren : ∀ position, (nodeIn (table.fillHits samples).1.nodes position).get "children" =
      (nodeIn table.nodes position).get "children" := fun position =>
    hfills.get_eq position (by decide)
  have hgiven : ((nodeIn (table.fillHits samples).1.nodes 0).get "children").isNull = false := by
    rw [hchildren]
    exact h.tree.given
  have hlists : ∀ position < (table.fillHits samples).1.nodes.length,
      ListsOrNot (table.fillHits samples).1.nodes position := fun position hp => by
    rw [ListsOrNot, hchildren]
    exact h.lists position (hfills.length ▸ hp)
  have hfilled := fillChildren_fillHits_of_given table samples
    (List.length_pos_iff.mp (length_pos_of_given h.tree.given)) h.tree.given
  obtain ⟨hlinks, hlisted⟩ := listed_fillChildren (hfills'.indexed (by decide) hi') hok
  obtain ⟨hlists', hgiven'⟩ := listsOrNot_fillChildren (hfills'.indexed (by decide) hi')
    (fun position _ => .inl (by
      rw [hfills'.get_eq position (by decide), h'.children_eq_null])) hok
  obtain ⟨hcounted, -⟩ := agree_fillHits (by decide) hagree samples
  obtain ⟨below, hbelow⟩ := exists_below hi h h'
  refine ⟨by rw [hfilled], ?_⟩
  rw [filledTable, filledTable, hfilled]
  refine readsAs_of_below (hcounted.trans ((Agree.of_fills hlinks).mono (by decide))) hlists
    (fun position hp => hlists' position (hcounted.length ▸ hp)) hgiven hgiven'
    fun position hp referrer => ?_
  rw [hfills.length] at hp
  obtain ⟨hnames, hlinked⟩ := hbelow position hp
  obtain ⟨hown, -, -⟩ := listed_of_parents hi h h' hagree samples hp
  have hfind : ∀ ids, (table.fillHits samples).1.findAll ids referrer =
      table.findAll ids referrer := fun ids => by
    rw [(Agree.of_fills hfills).findAll_eq]
  have hfind' : ∀ ids, (other.fillHits samples).1.fillChildren.1.findAll ids referrer =
      table.findAll ids referrer := fun ids => by
    rw [(Agree.of_fills hlinks).findAll_eq, (Agree.of_fills hfills').findAll_eq, hagree.findAll_eq]
  rw [filledTable] at hown
  rw [hfind, hfind', hown, hlinked, listed_congr (hchildren position),
    findAll_of_names hi hnames,
    findAll_of_names hi (names_map_idIn hi fun child hchild => (hnames.exists_of_mem hchild).1)]

/-- **What lists of children contract to, parents contract to.** -/
theorem ofNodes_parents {nodes others : List (Fields α)} (h : ListsInOrder nodes)
    (h' : ParentsOf nodes others) (samples start finish : Value α) (keepNatives : Bool) :
    (ofNodes (others.map .obj) samples start finish keepNatives).2 =
      (ofNodes (nodes.map .obj) samples start finish keepNatives).2 := by
  obtain ⟨table, htable⟩ := exists_ofNodes_iff.mpr h.own
  obtain ⟨other, hother, hagree⟩ := (alike_ofNodes (by decide) h'.same).exists_ok htable
  obtain ⟨rfl, hi⟩ := indexed_ofNodes htable
  obtain ⟨rfl, -⟩ := indexed_ofNodes hother
  have hne := List.length_pos_iff.mp (length_pos_of_given h.tree.given)
  have hne' : other.nodes ≠ [] := List.length_pos_iff.mp
    (hagree.length ▸ length_pos_of_given h.tree.given)
  obtain ⟨hchildren, hreads⟩ := readsAs_of_parents hi h h' hagree samples
  rw [ofNodes_snd_eq_bind (by simpa using hne'), ofNodes_snd_eq_bind (by simpa using hne), htable,
    hother, ok_bind, ok_bind, (agree_fillHits (by decide) hagree samples).2, hchildren,
    fillChildren_eq_ok_of_parents hi h h' hagree samples, hreads.ofTable_eq]

end Contracts

end Contraction
end SampledProfile
