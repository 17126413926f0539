/-
# Which lists of nodes are accepted

Several checks stand between a list of nodes and a result: ids are checked when the table is made,
hits and children when they are filled in, children once more when they are looked up, nodes met a
second time on the walk, nodes not met behind it, and samples last.  What they amount to is said by
`DescribesTree`: the lists of children, given or made from the parents, describe a tree over the
first node, and whatever is named is there.

* `accepted_iff_describesTree`: where fields are of the right kinds and arithmetic is exact, the
  lists that are accepted are those that describe a tree; and the walk ends for all of them.

One direction reads the conditions off the source tree of an accepted list.  For the other one
`Frontier` shows that the walk does not fail, so that no tree has to be built beforehand
(`ends_fromRoot`).
-/
import SampledProfile.Proofs.Contraction.Contracted
import SampledProfile.Proofs.Contraction.Frontier
import SampledProfile.Proofs.Contraction.Termination

namespace SampledProfile
namespace Contraction

open Outcome NodeTable SampledProfile.Tree

/-! ## 1. Descriptions of trees -/

section Descriptions

variable {α : Type} [Scalar α]

/-- Fields are of the right kinds.  Nothing has to be said of parents, nor of what stands in lists
of children: what is no id names no node. -/
structure WellTyped (node : Fields α) : Prop where
  id : node.get "id" = .null ∨ (∃ x, node.get "id" = .num x) ∨ ∃ text, node.get "id" = .str text
  children : node.get "children" = .null ∨ ∃ ids, node.get "children" = .list ids
  hitCount : HitsOrNot node
  frame : HasFrame node

/-- How often a node is listed as a child, over all lists. -/
def occurrences (nodes : List (Fields α)) (position : Nat) : Nat :=
  ((List.range nodes.length).flatMap (childIds nodes)).countP fun id =>
    id.SameName (idIn nodes position)

/-- One node lists another as a child. -/
def Lists (nodes : List (Fields α)) (position other : Nat) : Prop :=
  position < nodes.length ∧ other < nodes.length ∧
    ∃ id ∈ childIds nodes position, id.SameName (idIn nodes other)

/-- The nodes describe a tree over the first one, with samples of its nodes. -/
structure DescribesTree (nodes : List (Fields α)) (samples : Option (List (Value α))) : Prop where
  nonempty : nodes ≠ []
  given : ∀ node ∈ nodes, (node.get "id").isNull = false
  distinct : nodes.Pairwise fun node other => ¬ (node.get "id").SameName (other.get "id")
  /-- Hits are reported, or can be counted. -/
  hits : (∃ count, (nodeIn nodes 0).get "hitCount" = .num count) ∨ samples.isSome
  /-- Children are listed, or can be found by their parents. -/
  links : ((nodeIn nodes 0).get "children").isNull = false ∨
    ∀ node ∈ nodes.tail, Known nodes (node.get "parent")
  known : ∀ position < nodes.length, ∀ id ∈ childIds nodes position, Known nodes id
  first : occurrences nodes 0 = 0
  once : ∀ position < nodes.length, position ≠ 0 → occurrences nodes position = 1
  reachable : ∀ position < nodes.length, Relation.ReflTransGen (Lists nodes) 0 position
  samples : ∀ ids, samples = some ids → ∀ id ∈ ids, Known nodes id

/-! ## 2. Ids and the nodes they name -/

/-- The ids name the nodes at the positions. -/
def Names (nodes : List (Fields α)) (ids : List (Value α)) (positions : List Nat) : Prop :=
  List.Forall₂ (fun id position => position < nodes.length ∧ id.SameName (idIn nodes position))
    ids positions

theorem Names.flatMap {nodes : List (Fields α)} {β : Type} (entries : List β)
    {ids : β → List (Value α)} {positions : β → List Nat}
    (h : ∀ entry ∈ entries, Names nodes (ids entry) (positions entry)) :
    Names nodes (entries.flatMap ids) (entries.flatMap positions) := by
  induction entries with
  | nil => exact .nil
  | cons entry rest ih =>
    obtain ⟨hentry, hrest⟩ := List.forall_mem_cons.mp h
    exact List.rel_append hentry (ih hrest)

/-- Every node at one of the positions is named by one of the ids. -/
theorem Names.exists_of_mem {nodes : List (Fields α)} {ids : List (Value α)} {positions : List Nat}
    (h : Names nodes ids positions) {position : Nat} (hp : position ∈ positions) :
    position < nodes.length ∧ ∃ id ∈ ids, id.SameName (idIn nodes position) := by
  obtain ⟨id, hid, hlt, hname⟩ := exists_of_forall₂ h.flip hp
  exact ⟨hlt, id, hid, hname⟩

/-- Every one of the ids names a node. -/
theorem Names.known {nodes : List (Fields α)} {ids : List (Value α)} {positions : List Nat}
    (h : Names nodes ids positions) : ∀ id ∈ ids, Known nodes id := by
  intro id hid
  obtain ⟨position, -, hlt, hname⟩ := exists_of_forall₂ h hid
  exact ⟨position, hlt, hname⟩

variable {table : NodeTable α}

/-- A node is named as often as its position stands there. -/
theorem Names.count_eq (hi : table.Indexed) {ids : List (Value α)} {positions : List Nat}
    (h : Names table.nodes ids positions) {position : Nat} (hp : position < table.nodes.length) :
    positions.count position = ids.countP fun id => id.SameName (idIn table.nodes position) := by
  induction h with
  | nil => rfl
  | @cons id other ids positions hid _ ih =>
    rw [List.count_cons, List.countP_cons, ih]
    congr 1
    have hiff : other = position ↔ id.SameName (idIn table.nodes position) := by
      constructor
      · rintro rfl
        exact hid.2
      · exact fun hname => hi.eq_of_sameName hid.1 hp (hid.2.symm.trans hname)
    simp [hiff]

theorem Names.mem (hi : table.Indexed) {ids : List (Value α)} {positions : List Nat}
    (h : Names table.nodes ids positions) {id : Value α} (hid : id ∈ ids) {position : Nat}
    (hp : position < table.nodes.length) (hname : id.SameName (idIn table.nodes position)) :
    position ∈ positions := by
  have hcount := h.count_eq hi hp
  refine List.count_pos_iff.mp ?_
  rw [hcount]
  exact List.countP_pos_iff.mpr ⟨id, hid, by simpa using hname⟩

/-! ## 3. What an accepted list describes -/

section Accepted

variable {nodes filled : List (Fields α)} {time : α} {keepNatives : Bool}
  {source : Tree (SourceNode α)}

theorem Describes.exists_node (h : Describes nodes filled time keepNatives source) {position : Nat}
    (hp : position < nodes.length) :
    ∃ node below, (node, below) ∈ source.flatten ∧ node.position = position := by
  obtain ⟨node, hnode, hposition⟩ :=
    List.mem_map.mp (h.positions.mem_iff.mpr (List.mem_range.mpr hp))
  obtain ⟨⟨label, below⟩, hentry, rfl⟩ := List.mem_map.mp hnode
  exact ⟨label, below, hentry, hposition⟩

theorem Describes.names (h : Describes nodes filled time keepNatives source)
    {entry : SourceNode α × List (SourceNode α)} (hentry : entry ∈ source.flatten) :
    Names nodes (childIds nodes entry.1.position) (entry.2.map (·.position)) := by
  obtain ⟨node, below⟩ := entry
  have hlabels : ∀ child ∈ below, child ∈ source.labels := fun child hchild =>
    (labels_perm_children source).mem_iff.mpr
      (List.mem_cons_of_mem _ (List.mem_flatMap.mpr ⟨_, hentry, hchild⟩))
  have hchildren := h.children node below hentry
  unfold Names
  rw [List.forall₂_map_right_iff]
  exact ((List.forall₂_and_left _ _).mpr ⟨fun child hchild => h.lt (hlabels child hchild),
    hchildren.flip⟩).flip

/-- Every node is listed by some child list as often as the tree says: the first one never, and
every other once. -/
theorem Describes.occurrences_eq (h : Describes nodes filled time keepNatives source)
    {table : NodeTable α} (hi : table.Indexed) (htable : table.nodes = nodes) {position : Nat}
    (hp : position < nodes.length) :
    occurrences nodes position = if position = 0 then 0 else 1 := by
  subst htable
  have hnames := Names.flatMap source.flatten fun entry hentry => h.names hentry
  have hids : ((List.range table.nodes.length).flatMap (childIds table.nodes)).Perm
      (source.flatten.flatMap fun entry => childIds table.nodes entry.1.position) := by
    have hperm := h.positions.symm.flatMap_right (childIds table.nodes)
    rwa [Tree.labels, List.map_map, List.flatMap_map] at hperm
  have hall := (h.positions.symm.trans ((labels_perm_children source).map _)).count_eq position
  rw [List.map_cons, List.map_flatMap, List.count_cons, h.root,
    List.count_eq_one_of_mem List.nodup_range (List.mem_range.mpr hp)] at hall
  rw [occurrences, hids.countP_eq, ← hnames.count_eq hi hp]
  by_cases heq : position = 0
  · subst heq
    rw [if_pos rfl]
    simpa using hall
  · have hne : ¬ 0 = position := fun h => heq h.symm
    rw [if_neg heq]
    simpa [hne] using hall.symm

theorem Describes.reachable (h : Describes nodes filled time keepNatives source) {position : Nat}
    (hp : position < nodes.length) : Relation.ReflTransGen (Lists nodes) 0 position := by
  obtain ⟨node, below, hentry, rfl⟩ := h.exists_node hp
  have hreach := reachable_of_mem_labels (List.mem_map_of_mem (f := Prod.fst) hentry)
  rw [← h.root]
  refine hreach.lift (·.position) fun above child hchild => ?_
  obtain ⟨inner, hinner, hmem⟩ := hchild
  simp only [flattenAll, List.append_nil] at hinner
  exact ⟨h.lt (List.mem_map_of_mem (f := Prod.fst) hinner),
    (h.names hinner).exists_of_mem (List.mem_map_of_mem hmem)⟩

/-- Whether children can be had does not depend on the hits. -/
theorem fillChildren_fillHits_iff {table : NodeTable α} (hi : table.Indexed) (samples : Value α)
    (hlists : ∀ position < table.nodes.length, ListsOrNot table.nodes position) :
    (table.fillHits samples).1.fillChildren.2 = .ok () ↔
      table.nodes ≠ [] ∧ (((nodeIn table.nodes 0).get "children").isNull = false ∨
        ∀ node ∈ table.nodes.tail, Known table.nodes (node.get "parent")) := by
  have hcounted := fills_fillHits table samples
  have hcountedLists : ∀ position < (table.fillHits samples).1.nodes.length,
      ListsOrNot (table.fillHits samples).1.nodes position := fun position hp => by
    rw [ListsOrNot, hcounted.get_eq position (by decide)]
    exact hlists position (hcounted.length ▸ hp)
  rw [fillChildren_eq_ok_iff (hcounted.indexed (by decide) hi) hcountedLists,
    ← map_nodeIn_range', ← map_nodeIn_range', List.forall_mem_map, List.forall_mem_map,
    ← List.length_pos_iff, ← List.length_pos_iff, hcounted.length]
  simp only [hcounted.get_eq _ (show "children" ≠ "hitCount" by decide),
    hcounted.get_eq _ (show "parent" ≠ "hitCount" by decide), hcounted.known_iff (by decide)]

/-- The samples of an accepted list name nodes of it. -/
theorem known_of_ofNodes {ids : List (Value α)} {start finish : Value α} {result : Contraction α}
    (h : (ofNodes (nodes.map .obj) (.list ids) start finish keepNatives).2 = .ok result) :
    ∀ id ∈ ids, Known nodes id := by
  obtain ⟨filled, time, source, -, hsource⟩ := exists_source h
  have hdescribes := hsource.describes
  intro id hid
  obtain ⟨redirected, hredirected⟩ : ∃ redirected, Redirected nodes source ids redirected := by
    have hrel : Option.Rel (Redirected nodes source) (some ids) result.samples :=
      redirected_of_redirectSamples hdescribes hsource.samples
    generalize result.samples = given at hrel
    cases hrel with
    | some hredirected => exact ⟨_, hredirected⟩
  obtain ⟨-, -, node, hnode, -, hname, -⟩ := exists_of_forall₂ hredirected hid
  exact ⟨node.position, hdescribes.lt hnode, hname⟩

/-- What is accepted describes a tree. -/
theorem describesTree_of_ofNodes {samples : Option (List (Value α))} {start finish : Value α}
    {result : Contraction α} (htyped : ∀ position < nodes.length, WellTyped (nodeIn nodes position))
    (h : (ofNodes (nodes.map .obj) (.ofOption (samples.map .list)) start finish keepNatives).2 =
      .ok result) : DescribesTree nodes samples := by
  obtain ⟨filled, time, source, -, hsource⟩ := exists_source h
  have hdescribes := hsource.describes
  obtain ⟨hne, table, htable, hfillHits, hfillChildren, -⟩ := ofNodes_eq_ok_iff.mp h
  obtain ⟨hnodes, hi⟩ := indexed_ofNodes htable
  have hpos : 0 < nodes.length := List.length_pos_of_ne_nil hne
  have hown : OwnIds nodes := hnodes ▸ hi.ownIds
  have hoccurrences := fun position (hp : position < nodes.length) =>
    hdescribes.occurrences_eq hi hnodes hp
  refine ⟨hne, hown.given, hown.distinct, ?_, ?_, fun position hp => ?_, ?_, ?_, ?_, ?_⟩
  · rcases ((fillHits_eq_ok_iff hi samples).mp hfillHits).2 with hnumber | ⟨ids, rfl, -⟩
    · rw [hnodes] at hnumber
      rcases (htyped 0 hpos).hitCount with hnull | hcount
      · simp [hnull, Value.number?] at hnumber
      · exact .inl hcount
    · exact .inr rfl
  · have hlists : ∀ position < table.nodes.length, ListsOrNot table.nodes position :=
      hnodes ▸ fun position hp => (htyped position hp).children
    exact hnodes ▸ ((fillChildren_fillHits_iff hi _ hlists).mp hfillChildren).2
  · obtain ⟨node, below, hentry, rfl⟩ := hdescribes.exists_node hp
    exact (hdescribes.names hentry).known
  · rw [hoccurrences 0 hpos, if_pos rfl]
  · intro position hp hne
    rw [hoccurrences position hp, if_neg hne]
  · exact fun position hp => hdescribes.reachable hp
  · rintro ids rfl
    exact known_of_ofNodes h

end Accepted

/-! ## 4. The walk over what describes a tree -/

section Walks

variable {table : NodeTable α} {time : α} {keepNatives : Bool}

/-- The lists of children that the nodes of a table have describe a tree over the first node. -/
structure ListsTree (table : NodeTable α) : Prop where
  given : ((nodeIn table.nodes 0).get "children").isNull = false
  once : ∀ position < table.nodes.length,
    ((List.range table.nodes.length).flatMap fun other =>
      listed (nodeIn table.nodes other)).countP (fun id =>
        id.SameName (idIn table.nodes position)) = if position = 0 then 0 else 1
  reachable : ∀ position < table.nodes.length, Relation.ReflTransGen
    (fun above other => above < table.nodes.length ∧ other < table.nodes.length ∧
      ∃ id ∈ listed (nodeIn table.nodes above), id.SameName (idIn table.nodes other)) 0 position

theorem exists_childPositions (hi : table.Indexed) {position : Nat}
    (hlists : ListsOrNot table.nodes position)
    (hknown : ∀ id ∈ listed (nodeIn table.nodes position), Known table.nodes id) (id : Value α) :
    ∃ below, childPositions table (nodeIn table.nodes position) id = .ok below := by
  obtain ⟨ids, hids⟩ : ∃ ids,
      (((nodeIn table.nodes position).get "children").orElse (.list [])).items = .ok ids := by
    rcases hlists with hnull | ⟨ids, hids⟩
    · exact ⟨[], by rw [hnull]; rfl⟩
    · rw [hids, Value.orElse]
      split
      · exact ⟨ids, rfl⟩
      · exact ⟨[], rfl⟩
  have hlisted : listed (nodeIn table.nodes position) = ids := by
    rw [listed, hids]
    rfl
  obtain ⟨below, hbelow⟩ : ∃ below, table.findAll ids (NodeTable.referrer id) = .ok below :=
    exists_mapM_of_forall fun child hchild =>
      hi.exists_find_iff.mpr (hknown child (hlisted ▸ hchild))
  exact ⟨below, bind_eq_ok.mpr ⟨ids, hids, hbelow⟩⟩

/-- The positions of the children of a node that is read are those of the nodes it lists. -/
theorem names_of_read (hi : table.Indexed) {position : Nat} {node : SourceNode α}
    (h : read table time keepNatives position = .ok node) :
    Names table.nodes (listed (nodeIn table.nodes position)) node.below := by
  have hfind := listed_of_childPositions (read_eq_ok_iff.mp h).2.2.2.2
  exact (mapM_eq_ok_iff.mp hfind).imp fun id child hchild => hi.find_eq_ok_iff.mp hchild

namespace ListsTree

variable {below : Nat → List Nat}

/-- No position stands twice, be it among all children or for the first node. -/
theorem nodup (h : ListsTree table) (hi : table.Indexed) (hpos : 0 < table.nodes.length)
    (hbelow : ∀ position < table.nodes.length,
      Names table.nodes (listed (nodeIn table.nodes position)) (below position)) :
    (0 :: (List.range table.nodes.length).flatMap below).Nodup := by
  have hnames := Names.flatMap (List.range table.nodes.length) fun position hp =>
    hbelow position (List.mem_range.mp hp)
  rw [List.nodup_iff_count_le_one]
  intro position
  rw [List.count_cons]
  by_cases hp : position < table.nodes.length
  · rw [hnames.count_eq hi hp, h.once position hp]
    by_cases heq : position = 0
    · simp [heq]
    · have hne : ¬ 0 = position := fun h => heq h.symm
      simp [heq, hne]
  · have hout : position ∉ (List.range table.nodes.length).flatMap below := fun hmem =>
      hp (hnames.exists_of_mem hmem).1
    have hne : ¬ 0 = position := by omega
    simp [List.count_eq_zero_of_not_mem hout, hne]

/-- The list of the first node can be gone through. -/
theorem exists_items (h : ListsTree table) (hlists : ListsOrNot table.nodes 0) :
    ∃ ids, ((nodeIn table.nodes 0).get "children").items = .ok ids := by
  rcases hlists with hnull | ⟨ids, hids⟩
  · have hgiven := h.given
    rw [hnull] at hgiven
    cases hgiven
  · exact ⟨ids, by rw [hids]; rfl⟩

/-- What is reached by ids is reached by positions. -/
theorem reachable_below (h : ListsTree table) (hi : table.Indexed)
    (hbelow : ∀ position < table.nodes.length,
      Names table.nodes (listed (nodeIn table.nodes position)) (below position))
    {position : Nat} (hp : position < table.nodes.length) :
    Relation.ReflTransGen (fun above other => other ∈ below above) 0 position := by
  refine Relation.ReflTransGen.mono (fun above other hstep => ?_) _ _ (h.reachable position hp)
  obtain ⟨ha, ho, id, hid, hname⟩ := hstep
  exact (hbelow above ha).mem hi hid ho hname

end ListsTree

/-- **Where the lists of the nodes describe a tree, the walk from the first node meets every node
once, or it fails as reading a node does.** -/
theorem ends_fromRoot {faulty : Fault → Prop} {below : Nat → List Nat} (hi : table.Indexed)
    (hpos : 0 < table.nodes.length)
    (hbelow : ∀ position < table.nodes.length,
      Names table.nodes (listed (nodeIn table.nodes position)) (below position))
    (hcall : Ends faulty (fun _ => True) (Call.ofFields time (nodeIn table.nodes 0)))
    (hread : ∀ position < table.nodes.length, position ≠ 0 →
      Ends faulty (fun node => node.below = below position) (read table time keepNatives position))
    (hroot : ∃ ids, ((nodeIn table.nodes 0).get "children").items = .ok ids)
    (htree : ListsTree table) :
    Ends faulty (fun result =>
        (result.2.map Prod.fst).Perm ((List.range table.nodes.length).map (keyIn table.nodes)))
      (fromRoot table time keepNatives) := by
  obtain ⟨ids, hids⟩ := hroot
  have hfind : ∀ referrer, table.findAll ids referrer = .ok (below 0) := fun referrer => by
    have hnames := hbelow 0 hpos
    rw [listed_of_items hids] at hnames
    exact mapM_eq_ok_iff.mpr (hnames.imp fun id child hchild => hi.find_eq_ok_iff.mpr hchild)
  have hlt : ∀ position < table.nodes.length, ∀ child ∈ below position,
      child < table.nodes.length := fun position hp child hchild =>
    ((hbelow position hp).exists_of_mem hchild).1
  have hwalk := fun owner => ends_walk hi hread hlt (htree.nodup hi hpos hbelow) hpos
    table.nodes.length (below 0).reverse [] owner
    (by simpa using Frontier.start hpos (idIn table.nodes 0)) (by rw [List.length_singleton]; omega)
  have hfromRoot : fromRoot table time keepNatives =
      Call.ofFields time (nodeIn table.nodes 0) >>= fun call =>
        walk table time keepNatives table.nodes.length (below 0).reverse (.leaf call)
          [(keyIn table.nodes 0, idIn table.nodes 0)] := by
    unfold fromRoot
    simp only [nodeAt_eq, htree.given, hi.require_id hpos, hids, Bool.false_eq_true, if_false,
      ok_bind, hi.key 0 hpos, hfind]
  rw [hfromRoot]
  refine hcall.bind fun call _ => (hwalk (.leaf call)).mono fun result hresult => ?_
  obtain ⟨-, met, hmet⟩ := hresult
  rw [hmet.keys]
  refine List.Perm.map _ ((List.perm_ext_iff_of_nodup hmet.nodup List.nodup_range).mpr ?_)
  refine fun position => ⟨fun hp => List.mem_range.mpr (hmet.lt position hp), fun hp => ?_⟩
  exact hmet.mem_of_reachable (htree.reachable_below hi hbelow (List.mem_range.mp hp))

/-- **Where all nodes can be read besides, the walk does not fail.** -/
theorem exists_fromRoot (time : α) (keepNatives : Bool) (hi : table.Indexed)
    (hpos : 0 < table.nodes.length)
    (hread : ∀ position < table.nodes.length,
      ∃ node, read table time keepNatives position = .ok node)
    (hroot : ListsOrNot table.nodes 0) (htree : ListsTree table) :
    ∃ tree trail, fromRoot table time keepNatives = .ok (tree, trail) ∧
      (trail.map Prod.fst).Perm ((List.range table.nodes.length).map (keyIn table.nodes)) := by
  obtain ⟨node, hnode⟩ : ∃ node : Nat → SourceNode α, ∀ position < table.nodes.length,
      read table time keepNatives position = .ok (node position) := by
    have hnonempty : Nonempty (SourceNode α) := (hread 0 hpos).nonempty
    choose! node hnode using hread
    exact ⟨node, hnode⟩
  have hcall := (read_eq_ok_iff.mp (hnode 0 hpos)).2.2.1
  obtain ⟨⟨tree, trail⟩, hok, hkeys⟩ := (ends_fromRoot hi hpos
    (fun position hp => names_of_read hi (hnode position hp)) (.of_eq_ok hcall trivial)
    (fun position hp _ => .of_eq_ok (hnode position hp) rfl) (htree.exists_items hroot)
    htree).exists_ok
  exact ⟨tree, trail, hok, hkeys⟩

/-- Lists that are filled in describe a tree if the children of the nodes do. -/
theorem listsTree_of_filled {nodes : List (Fields α)} (hfilled : Filled nodes table)
    (hgiven : ((nodeIn table.nodes 0).get "children").isNull = false)
    (hoccurrences : ∀ position < nodes.length,
      occurrences nodes position = if position = 0 then 0 else 1)
    (hreachable : ∀ position < nodes.length, Relation.ReflTransGen (Lists nodes) 0 position) :
    ListsTree table := by
  have hlists : (List.range nodes.length).flatMap (fun other => listed (nodeIn table.nodes other)) =
      (List.range nodes.length).flatMap (childIds nodes) :=
    List.flatMap_congr fun position hp => hfilled.lists position (List.mem_range.mp hp)
  refine ⟨hgiven, fun position hp => ?_, fun position hp => ?_⟩
  · rw [hfilled.length] at hp ⊢
    rw [hlists, hfilled.ids]
    exact hoccurrences position hp
  · rw [hfilled.length] at hp ⊢
    rw [hfilled.ids]
    refine Relation.ReflTransGen.mono (fun above other hstep => ?_) _ _ (hreachable position hp)
    obtain ⟨ha, ho, hid⟩ := hstep
    exact ⟨ha, ho, hfilled.lists above ha ▸ hid⟩

end Walks

end Descriptions

/-! ## 5. Exactly the trees -/

section Exact

variable {nodes : List (Fields Rat)} {samples : Option (List (Value Rat))}

theorem ownIds_of_wellTyped (htyped : ∀ position < nodes.length, WellTyped (nodeIn nodes position))
    (hgiven : ∀ node ∈ nodes, (node.get "id").isNull = false)
    (hdistinct : nodes.Pairwise fun node other => ¬ (node.get "id").SameName (other.get "id")) :
    OwnIds nodes := by
  refine ⟨hgiven, fun entry hentry => ?_, hdistinct⟩
  obtain ⟨position, hp, rfl⟩ := List.getElem_of_mem hentry
  rw [← nodeIn_eq_getElem hp]
  rcases (htyped position hp).id with hnull | ⟨x, hx⟩ | ⟨text, htext⟩
  · exact ⟨_, by rw [hnull]; rfl⟩
  · exact ⟨_, by rw [hx]; rfl⟩
  · exact ⟨_, by rw [htext]; rfl⟩

/-- Every node of the filled table can be read. -/
theorem exists_read {table : NodeTable Rat} (h : Filled nodes table)
    (htyped : ∀ position < nodes.length, WellTyped (nodeIn nodes position))
    (hhits : ∀ position < nodes.length, HitsOrNot (nodeIn table.nodes position))
    (hlists : ∀ position < nodes.length, ListsOrNot table.nodes position)
    (hknown : ∀ position < nodes.length, ∀ id ∈ childIds nodes position, Known nodes id)
    (time : Rat) (keepNatives : Bool) {position : Nat} (hp : position < nodes.length) :
    ∃ node, read table time keepNatives position = .ok node := by
  have hp' : position < table.nodes.length := h.length ▸ hp
  have hframe : HasFrame (nodeIn table.nodes position) := h.hasFrame (htyped position hp).frame
  obtain ⟨count, hcount⟩ := (hhits position hp).exists_number
  obtain ⟨call, hcall⟩ := Exact.exists_ofFields hframe (h.indexed.require_id hp') hcount time
  obtain ⟨elided, helided⟩ : ∃ elided,
      isElided keepNatives (nodeIn table.nodes position) = .ok elided := by
    cases keepNatives with
    | true => exact ⟨false, rfl⟩
    | false => exact hframe.exists_isNative
  obtain ⟨below, hbelow⟩ := exists_childPositions h.indexed (hlists position hp)
    (fun id hid => by
      rw [h.lists position hp] at hid
      simpa only [Known, h.length, h.ids] using hknown position hp id hid)
    (idIn table.nodes position)
  exact ⟨⟨position, _, call, elided, below⟩, read_eq_ok_iff.mpr
    ⟨rfl, h.indexed.key position hp', hcall, helided, hbelow⟩⟩

/-- Numbers of hits can be summed up. -/
theorem exists_totalHits : ∀ (nodes : List (Fields Rat)) (start : Rat),
    (∀ node ∈ nodes, HitsOrNot node) →
    ∃ sum, nodes.foldlM (fun sum node => do
      Scalar.add? sum (← ((node.get "hitCount").orElse (.int 0)).number)) start = .ok sum
  | [], start, _ => ⟨start, rfl⟩
  | _ :: rest, start, h => by
    obtain ⟨hfirst, hrest⟩ := List.forall_mem_cons.mp h
    obtain ⟨count, hcount⟩ := hfirst.exists_number
    obtain ⟨sum, hsum⟩ := exists_totalHits rest (start + count) hrest
    refine ⟨sum, ?_⟩
    rw [List.foldlM_cons, hcount]
    exact hsum

/-- There is a time between samples, be there hits or none. -/
theorem exists_sampleTime (totalHits start finish : Rat) :
    ∃ time, sampleTime totalHits (.num start) (.num finish) = .ok time := by
  unfold sampleTime
  by_cases hzero : Scalar.isZero totalHits
  · exact ⟨0, by rw [if_pos hzero]⟩
  · have hne : totalHits ≠ 0 := by
      rintro rfl
      exact hzero (by decide)
    refine ⟨(finish - start) / totalHits, ?_⟩
    have hcause : Scalar.quotientFault (finish - start) totalHits = none := if_neg hne
    have hsub : (Value.num finish).sub (.num start) = .ok (finish - start) := rfl
    rw [if_neg hzero, hsub]
    exact Scalar.guarded_eq_ok_iff.mpr ⟨hcause, rfl⟩

/-- Every sample of a node that has been met can be redirected. -/
theorem exists_redirectSamples (samples : Option (List (Value Rat))) (trail : Trail Rat)
    (hknown : ∀ ids, samples = some ids → ∀ id ∈ ids, ∃ key, id.key = .ok key ∧
      key ∈ trail.map Prod.fst) :
    ∃ redirected, redirectSamples trail (.ofOption (samples.map .list)) = .ok redirected := by
  cases samples with
  | none => exact ⟨none, rfl⟩
  | some ids =>
    obtain ⟨redirected, hredirected⟩ : ∃ redirected, ids.mapM (redirectSample trail) =
        .ok redirected := exists_mapM_of_forall fun id hid => by
        obtain ⟨key, hkey, hmem⟩ := hknown ids rfl id hid
        obtain ⟨found, hfound⟩ := Option.isSome_iff_exists.mp (Key.isSome_lookup_iff.mpr hmem)
        exact ⟨found, bind_eq_ok.mpr ⟨key, hkey, by rw [hfound]; rfl⟩⟩
    exact ⟨some redirected, bind_eq_ok.mpr ⟨ids, rfl, bind_eq_ok.mpr ⟨_, hredirected, rfl⟩⟩⟩

/-- The lists that a description of a tree has filled in describe the tree. -/
theorem listsTree_of_describesTree {table : NodeTable Rat} (hfilled : Filled nodes table)
    (hgiven : ((nodeIn table.nodes 0).get "children").isNull = false)
    (h : DescribesTree nodes samples) : ListsTree table := by
  refine listsTree_of_filled hfilled hgiven (fun position hp => ?_) h.reachable
  split
  · rename_i hzero
    exact hzero ▸ h.first
  · rename_i hne
    exact h.once position hp hne

/-- What describes a tree can be filled in with hits and children. -/
theorem exists_table (htyped : ∀ position < nodes.length, WellTyped (nodeIn nodes position))
    (h : DescribesTree nodes samples) :
    ∃ table, NodeTable.ofNodes (nodes.map .obj) = .ok table ∧
      (table.fillHits (.ofOption (samples.map .list))).2 = .ok () ∧
      (table.fillHits (.ofOption (samples.map .list))).1.fillChildren.2 = .ok () := by
  obtain ⟨table, htable⟩ := exists_ofNodes_iff.mpr (ownIds_of_wellTyped htyped h.given h.distinct)
  obtain ⟨rfl, hi⟩ := indexed_ofNodes htable
  refine ⟨table, htable, (fillHits_eq_ok_iff hi samples).mpr ⟨h.nonempty, ?_⟩,
    (fillChildren_fillHits_iff hi _ fun position hp => (htyped position hp).children).mpr
      ⟨h.nonempty, h.links⟩⟩
  rcases h.hits with ⟨count, hcount⟩ | hsome
  · exact .inl (by rw [hcount]; rfl)
  · obtain ⟨ids, hids⟩ := Option.isSome_iff_exists.mp hsome
    exact .inr ⟨ids, hids, h.samples ids hids⟩

/-- What describes a tree is accepted. -/
theorem exists_ofNodes (htyped : ∀ position < nodes.length, WellTyped (nodeIn nodes position))
    (h : DescribesTree nodes samples) (start finish : Rat) (keepNatives : Bool) :
    ∃ result, (ofNodes (nodes.map .obj) (.ofOption (samples.map .list)) (.num start) (.num finish)
      keepNatives).2 = .ok result := by
  have hpos : 0 < nodes.length := List.length_pos_of_ne_nil h.nonempty
  obtain ⟨table, htable, hhits, hchildren⟩ := exists_table htyped h
  obtain ⟨rfl, hi⟩ := indexed_ofNodes htable
  have hfilled := filled_filledTable htable hchildren
  -- what is filled in is of the right kinds
  obtain ⟨hfilledLists, hgiven⟩ := listsOrNot_filledTable htable hchildren fun position hp =>
    (htyped position hp).children
  have hfilledHits : ∀ position < table.nodes.length,
      HitsOrNot (nodeIn (filledTable table (.ofOption (samples.map .list))).nodes position) :=
    fun position hp => hitsOrNot_filledTable htable hchildren (htyped position hp).hitCount
  -- so the sums, the walk and the samples succeed
  obtain ⟨sum, hsum⟩ := exists_totalHits
    (filledTable table (.ofOption (samples.map .list))).nodes (Scalar.ofInt 0)
    fun entry hentry => by
      obtain ⟨position, hp, rfl⟩ := List.getElem_of_mem hentry
      exact nodeIn_eq_getElem hp ▸ hfilledHits position (hfilled.length ▸ hp)
  obtain ⟨time, htime⟩ := exists_sampleTime sum start finish
  obtain ⟨tree, trail, hroot, hkeys⟩ := exists_fromRoot time keepNatives
    hfilled.indexed (hfilled.length ▸ hpos)
    (fun position hp => exists_read hfilled htyped hfilledHits hfilledLists h.known time
      keepNatives (hfilled.length ▸ hp))
    (hfilledLists 0 hpos) (listsTree_of_describesTree hfilled hgiven h)
  have hlength : trail.length =
      (filledTable table (.ofOption (samples.map .list))).nodes.length := by
    simpa using hkeys.length_eq
  obtain ⟨redirected, hredirected⟩ := exists_redirectSamples samples trail
    fun ids hids id hid => by
      obtain ⟨position, hp, hname⟩ := h.samples ids hids id hid
      rw [← hfilled.ids] at hname
      have hp' := hfilled.length ▸ hp
      refine ⟨_, (hfilled.indexed.sameName_iff hp').mp hname, hkeys.mem_iff.mpr ?_⟩
      exact List.mem_map_of_mem (List.mem_range.mpr hp')
  exact ⟨⟨tree, sum, redirected⟩, ofNodes_eq_ok_iff.mpr ⟨h.nonempty, table, htable, hhits,
    hchildren, ofTable_eq_ok_iff.mpr ⟨hsum, time, htime, trail, hroot, hlength, hredirected⟩⟩⟩

/-- **Where fields are of the right kinds and arithmetic is exact, the walk ends within as many
steps as there are nodes, and the lists that are accepted are those that describe a tree.** -/
theorem accepted_iff_describesTree (htyped : ∀ node ∈ nodes, WellTyped node)
    (samples : Option (List (Value Rat))) (start finish : Rat) (keepNatives : Bool) :
    (∀ bound, nodes.length ≤ bound →
      ofNodesWithin bound (nodes.map .obj) (.ofOption (samples.map .list)) (.num start)
          (.num finish) keepNatives =
        ((ofNodes (nodes.map .obj) (.ofOption (samples.map .list)) (.num start) (.num finish)
            keepNatives).1,
          some (ofNodes (nodes.map .obj) (.ofOption (samples.map .list)) (.num start) (.num finish)
            keepNatives).2)) ∧
      ((∃ result, (ofNodes (nodes.map .obj) (.ofOption (samples.map .list)) (.num start)
          (.num finish) keepNatives).2 = .ok result) ↔ DescribesTree nodes samples) := by
  have hall : ∀ position < nodes.length, WellTyped (nodeIn nodes position) := fun position hp =>
    nodeIn_eq_getElem hp ▸ htyped _ (List.getElem_mem hp)
  refine ⟨fun bound hbound => ofNodesWithin_eq hbound _ _ _ _, ?_, ?_⟩
  · rintro ⟨result, h⟩
    exact describesTree_of_ofNodes hall h
  · exact fun h => exists_ofNodes hall h start finish keepNatives

theorem wellTyped_smallProfile : ∀ entry ∈ smallProfile, WellTyped entry := by
  simp only [smallProfile, List.forall_mem_cons, List.not_mem_nil, false_imp_iff, implies_true,
    and_true]
  refine ⟨?_, ?_, ?_, ?_⟩
  all_goals
    refine ⟨.inr (.inl ⟨_, rfl⟩), ?_, .inr ⟨_, rfl⟩, .inl rfl, .inr ⟨_, rfl⟩, ?_, ?_⟩
    · simp [Fields.get, Fields.get?]
    · simp [Fields.get?]
    · simp [Fields.get?]

theorem describesTree_smallProfile : DescribesTree smallProfile (some [.int 3, .int 2]) := by
  have hok : (ofNodes (smallProfile.map .obj) (.ofOption ((some [.int 3, .int 2]).map .list))
      (.num 0) (.num 20) false).2.isOk = true := by
    decide +kernel
  exact (accepted_iff_describesTree wellTyped_smallProfile (some [.int 3, .int 2]) 0 20 false).2.mp
    (exists_of_isOk hok)

end Exact

end Contraction
end SampledProfile
