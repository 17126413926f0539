/-
# From an accepted list to its source tree

A list of nodes that is accepted describes a tree, its SOURCE TREE: the root is the first node,
every node of the list stands in it once, and the children of a node are those it lists or, where
children come from parents, those that name it.

`exists_source` finds the source tree of an accepted list, and beside it all that the result says
of it before dropped nodes are taken into account: the tree is what the source tree contracts to,
and the samples are redirected by what the walk noted.
-/
import SampledProfile.Proofs.Calls
import SampledProfile.Proofs.Contraction.Walk
import SampledProfile.Proofs.NodeTable.Children

namespace SampledProfile
namespace Contraction

open Outcome NodeTable SampledProfile.Tree

variable {α : Type} [Scalar α]

/-! ## 1. The steps to a result -/

/-- The table with hits and children filled in. -/
def filledTable (table : NodeTable α) (samples : Value α) : NodeTable α :=
  (table.fillHits samples).1.fillChildren.1

/-- A table has the nodes of a list, with hits and children filled in. -/
structure Filled (nodes : List (Fields α)) (table : NodeTable α) : Prop where
  indexed : table.Indexed
  length : table.nodes.length = nodes.length
  others : ∀ position name, name ≠ "hitCount" → name ≠ "children" →
    (nodeIn table.nodes position).get? name = (nodeIn nodes position).get? name
  lists : ∀ position < nodes.length,
    listed (nodeIn table.nodes position) = childIds nodes position

theorem Filled.ids {nodes : List (Fields α)} {table : NodeTable α} (h : Filled nodes table) :
    idIn table.nodes = idIn nodes := by
  funext position
  rw [idIn, Fields.get, h.others position "id" (by decide) (by decide), idIn, Fields.get]

/-- The hits of the table are those reported, or as many as there are samples. -/
theorem hits_filledTable {nodes : List (Fields α)} {table : NodeTable α} {samples : Value α}
    (htable : NodeTable.ofNodes (nodes.map .obj) = .ok table)
    (hhits : (table.fillHits samples).2 = .ok ())
    (hchildren : (table.fillHits samples).1.fillChildren.2 = .ok ()) {position : Nat}
    (hp : position < nodes.length) :
    (nodeIn (filledTable table samples).nodes position).get "hitCount" =
      hitsIn nodes ((samples.items.toOption).getD []) position := by
  obtain ⟨rfl, hi⟩ := indexed_ofNodes htable
  have hcountedIndexed := (fills_fillHits table samples).indexed (by decide) hi
  obtain ⟨hlinked, -⟩ := listed_fillChildren hcountedIndexed hchildren
  rw [filledTable, hlinked.get_eq position (by decide), get_fillHits hi hhits hp]

/-- Where the first node lists its children, filling in hits leaves nothing to be done about them. -/
theorem fillChildren_fillHits_of_given (table : NodeTable α) (samples : Value α)
    (hne : table.nodes ≠ []) (hgiven : ((nodeIn table.nodes 0).get "children").isNull = false) :
    (table.fillHits samples).1.fillChildren = ((table.fillHits samples).1, .ok ()) := by
  have hfills := fills_fillHits table samples
  refine fillChildren_of_given (List.length_pos_iff.mp ?_) ?_
  · exact hfills.length ▸ List.length_pos_of_ne_nil hne
  · rwa [hfills.get_eq 0 (by decide)]

theorem filled_filledTable {nodes : List (Fields α)} {table : NodeTable α} {samples : Value α}
    (htable : NodeTable.ofNodes (nodes.map .obj) = .ok table)
    (hchildren : (table.fillHits samples).1.fillChildren.2 = .ok ()) :
    Filled nodes (filledTable table samples) := by
  obtain ⟨rfl, hi⟩ := indexed_ofNodes htable
  have hcounted := fills_fillHits table samples
  have hcountedIndexed := hcounted.indexed (by decide) hi
  obtain ⟨hlinked, hlists⟩ := listed_fillChildren hcountedIndexed hchildren
  refine ⟨hlinked.indexed (by decide) hcountedIndexed, hlinked.length.trans hcounted.length,
    fun position name hh hc => ?_, fun position hp => ?_⟩
  · exact (hlinked.others position name hc).trans (hcounted.others position name hh)
  · exact (hlists position (hcounted.length ▸ hp)).trans
      (hcounted.childIds_eq (by decide) (by decide) (by decide) position)

/-- Where nodes have lists of children or none they still do, and the first node has one. -/
theorem listsOrNot_filledTable {nodes : List (Fields α)} {table : NodeTable α} {samples : Value α}
    (htable : NodeTable.ofNodes (nodes.map .obj) = .ok table)
    (hchildren : (table.fillHits samples).1.fillChildren.2 = .ok ())
    (hlists : ∀ position < nodes.length, ListsOrNot nodes position) :
    (∀ position < nodes.length, ListsOrNot (filledTable table samples).nodes position) ∧
      ((nodeIn (filledTable table samples).nodes 0).get "children").isNull = false := by
  obtain ⟨rfl, hi⟩ := indexed_ofNodes htable
  have hcounted := fills_fillHits table samples
  have hcountedLists : ∀ position < (table.fillHits samples).1.nodes.length,
      ListsOrNot (table.fillHits samples).1.nodes position := by
    intro position hp
    rw [ListsOrNot, hcounted.get_eq position (by decide)]
    exact hlists position (hcounted.length ▸ hp)
  obtain ⟨hfilled, hfirst⟩ :=
    listsOrNot_fillChildren (hcounted.indexed (by decide) hi) hcountedLists hchildren
  exact ⟨fun position hp => hfilled position (hcounted.length ▸ hp), hfirst⟩

/-- Which function a node stands for is said by fields that are not filled in. -/
theorem Filled.hasFrame {nodes : List (Fields α)} {table : NodeTable α} (h : Filled nodes table)
    {position : Nat} (hframe : HasFrame (nodeIn nodes position)) :
    HasFrame (nodeIn table.nodes position) :=
  hframe.congr fun name hname => by
    refine h.others position name ?_ ?_ <;> rintro rfl <;> simp at hname

/-- The hits that a table is filled with are numbers. -/
theorem hitsOrNot_filledTable {nodes : List (Fields α)} {table : NodeTable α} {samples : Value α}
    (htable : NodeTable.ofNodes (nodes.map .obj) = .ok table)
    (hchildren : (table.fillHits samples).1.fillChildren.2 = .ok ()) {position : Nat}
    (h : HitsOrNot (nodeIn nodes position)) :
    HitsOrNot (nodeIn (filledTable table samples).nodes position) := by
  obtain ⟨rfl, hi⟩ := indexed_ofNodes htable
  have hcounted := (fills_fillHits table samples).indexed (by decide) hi
  obtain ⟨hlinked, -⟩ := listed_fillChildren hcounted hchildren
  rw [HitsOrNot, filledTable, hlinked.get_eq position (by decide)]
  exact hitsOrNot_fillHits samples h

/-- A result is the outcome of all steps, one after another. -/
theorem ofNodes_eq_ok_iff {nodes : List (Fields α)} {samples start finish : Value α}
    {keepNatives : Bool} {result : Contraction α} :
    (ofNodes (nodes.map .obj) samples start finish keepNatives).2 = .ok result ↔
      nodes ≠ [] ∧ ∃ table, NodeTable.ofNodes (nodes.map .obj) = .ok table ∧
        (table.fillHits samples).2 = .ok () ∧
        (table.fillHits samples).1.fillChildren.2 = .ok () ∧
        ofTable (filledTable table samples) samples start finish keepNatives = .ok result := by
  unfold ofNodes filledTable
  cases nodes with
  | nil => simp
  | cons first rest =>
    simp only [List.map_cons, List.isEmpty_cons, Bool.false_eq_true, if_false, ne_eq, reduceCtorEq,
      not_false_eq_true, true_and]
    cases NodeTable.ofNodes (Value.obj first :: rest.map .obj) with
    | error fault => simp
    | ok table =>
      simp only [Except.ok.injEq, exists_eq_left']
      rcases table.fillHits samples with ⟨counted, _ | _⟩
      · simp
      · simp only [true_and]
        rcases counted.fillChildren with ⟨linked, _ | _⟩
        · simp
        · simp

/-- Beside a result stands the list with its fields filled in. -/
theorem ofNodes_fst_of_ok {nodes : List (Fields α)} {samples start finish : Value α}
    {keepNatives : Bool} {result : Contraction α} {table : NodeTable α}
    (h : (ofNodes (nodes.map .obj) samples start finish keepNatives).2 = .ok result)
    (htable : NodeTable.ofNodes (nodes.map .obj) = .ok table) :
    (ofNodes (nodes.map .obj) samples start finish keepNatives).1 =
      (filledTable table samples).toList := by
  obtain ⟨hne, table', htable', hhits, hchildren, -⟩ := ofNodes_eq_ok_iff.mp h
  obtain rfl := Except.ok.inj (htable.symm.trans htable')
  unfold ofNodes filledTable at *
  cases nodes with
  | nil => exact absurd rfl hne
  | cons first rest =>
    simp only [List.map_cons, List.isEmpty_cons, Bool.false_eq_true, if_false] at *
    rw [htable]
    rcases hc : table.fillHits samples with ⟨counted, _ | _⟩
    · simp [hc] at hhits
    · simp only [hc] at hchildren ⊢
      rcases hl : counted.fillChildren with ⟨linked, _ | _⟩
      · simp [hl] at hchildren
      · simp

/-- The steps one after another: a table is made, hits and children are filled in, and then comes the
walk. -/
theorem ofNodes_snd_eq_bind {nodes : List (Value α)} (hne : nodes ≠ []) (samples start finish : Value α)
    (keepNatives : Bool) :
    (ofNodes nodes samples start finish keepNatives).2 =
      NodeTable.ofNodes nodes >>= fun table =>
        (table.fillHits samples).2 >>= fun _ => (table.fillHits samples).1.fillChildren.2 >>= fun _ =>
          ofTable (filledTable table samples) samples start finish keepNatives := by
  have hgiven : nodes.isEmpty = false := by simpa using hne
  simp only [ofNodes, hgiven, Bool.false_eq_true, if_false, filledTable]
  cases NodeTable.ofNodes nodes with
  | error fault => rfl
  | ok table =>
    dsimp only [ok_bind]
    rcases table.fillHits samples with ⟨counted, fault | done⟩
    · rfl
    · dsimp only
      rcases counted.fillChildren with ⟨linked, fault | done⟩
      · rfl
      · rfl

/-- Once there is a table, hits and children are filled in before the walk. -/
theorem ofNodes_snd_eq {nodes : List (Fields α)} {table : NodeTable α} (hne : nodes ≠ [])
    (htable : NodeTable.ofNodes (nodes.map .obj) = .ok table) (samples start finish : Value α)
    (keepNatives : Bool) :
    (ofNodes (nodes.map .obj) samples start finish keepNatives).2 =
      (table.fillHits samples).2 >>= fun _ => (table.fillHits samples).1.fillChildren.2 >>= fun _ =>
        ofTable (filledTable table samples) samples start finish keepNatives := by
  rw [ofNodes_snd_eq_bind (by simpa using hne), htable]
  rfl

theorem ofTable_eq_ok_iff {table : NodeTable α} {samples start finish : Value α}
    {keepNatives : Bool} {result : Contraction α} :
    ofTable table samples start finish keepNatives = .ok result ↔
      table.totalHits = .ok result.totalHits ∧
      ∃ time, sampleTime result.totalHits start finish = .ok time ∧
        ∃ trail, fromRoot table time keepNatives = .ok (result.tree, trail) ∧
          trail.length = table.nodes.length ∧
          redirectSamples trail samples = .ok result.samples := by
  simp only [ofTable, bind_eq_ok, check_eq_ok, pure_eq_ok, ne_eq, not_not]
  constructor
  · rintro ⟨total, htotal, time, htime, ⟨tree, trail⟩, hroot, hlength, redirected, hsamples, rfl⟩
    exact ⟨htotal, time, htime, trail, hroot, hlength, hsamples⟩
  · rintro ⟨htotal, time, htime, trail, hroot, hlength, hsamples⟩
    exact ⟨_, htotal, time, htime, (_, trail), hroot, hlength, _, hsamples, rfl⟩

/-- The walk starts below the first node. -/
theorem fromRoot_eq_ok_iff {table : NodeTable α} {time : α} {keepNatives : Bool}
    {result : CallTree α × Trail α} :
    fromRoot table time keepNatives = .ok result ↔
      ((nodeIn table.nodes 0).get "children").isNull = false ∧
      ∃ id key call ids below,
        (nodeIn table.nodes 0).require "id" = .ok id ∧ id.key = .ok key ∧
        Call.ofFields time (nodeIn table.nodes 0) = .ok call ∧
        ((nodeIn table.nodes 0).get "children").items = .ok ids ∧
        table.findAll ids (NodeTable.referrer id) = .ok below ∧
        walk table time keepNatives table.nodes.length below.reverse (.leaf call) [(key, id)] =
          .ok result := by
  unfold fromRoot
  rw [check_eq_ok, Bool.not_eq_true]
  simp only [nodeAt_eq, bind_eq_ok]
  refine and_congr_right fun _ => ?_
  constructor
  · rintro ⟨id, hid, key, hkey, call, hcall, ids, hids, below, hbelow, hwalk⟩
    exact ⟨id, key, call, ids, below, hid, hkey, hcall, hids, hbelow, hwalk⟩
  · rintro ⟨id, key, call, ids, below, hid, hkey, hcall, hids, hbelow, hwalk⟩
    exact ⟨id, hid, key, hkey, call, hcall, ids, hids, below, hbelow, hwalk⟩

/-! ## 2. The source tree -/

/-- The tree that a list of nodes describes.  `filled` is the list with its fields filled in, and
the samples are `time` apart. -/
structure Describes (nodes filled : List (Fields α)) (time : α) (keepNatives : Bool)
    (source : Tree (SourceNode α)) : Prop where
  /-- The root is the first node. -/
  root : source.label.position = 0
  /-- The root is always kept. -/
  rootKept : source.label.elided = false
  /-- Every node of the list stands in the tree once. -/
  positions : (source.labels.map (·.position)).Perm (List.range nodes.length)
  key : ∀ node ∈ source.labels, (idIn nodes node.position).key = .ok node.key
  call : ∀ node ∈ source.labels, Call.ofFields time (nodeIn filled node.position) = .ok node.call
  /-- Any other node is dropped if it is native and natives are not to be kept. -/
  elided : ∀ node ∈ source.labels, node.position ≠ 0 →
    isElided keepNatives (nodeIn filled node.position) = .ok node.elided
  /-- The children of a node are those it is said to have, in their order. -/
  children : ∀ node below, (node, below) ∈ source.flatten →
    List.Forall₂ (fun id child => id.SameName (idIn nodes child.position))
      (childIds nodes node.position) below

theorem Describes.lt {nodes filled : List (Fields α)} {time : α} {keepNatives : Bool}
    {source : Tree (SourceNode α)} (h : Describes nodes filled time keepNatives source)
    {node : SourceNode α} (hnode : node ∈ source.labels) : node.position < nodes.length :=
  List.mem_range.mp (h.positions.mem_iff.mp (List.mem_map_of_mem hnode))

/-- Positions that stand in order for all positions of a list. -/
theorem perm_range_of_nodup {positions : List Nat} {n : Nat} (hnd : positions.Nodup)
    (hlt : ∀ position ∈ positions, position < n) (hlength : positions.length = n) :
    positions.Perm (List.range n) := by
  refine (List.subperm_of_subset hnd fun position hp => ?_).perm_of_length_le ?_
  · exact List.mem_range.mpr (hlt position hp)
  · exact Nat.le_of_eq (List.length_range.trans hlength.symm)

/-- The nodes that are found for a list of ids have these names. -/
theorem forall₂_of_findAll {table : NodeTable α} (hi : table.Indexed) {ids : List (Value α)}
    {referrer : String} {forest : List (Tree (SourceNode α))}
    (h : table.findAll ids referrer = .ok (forest.map (·.label.position))) :
    List.Forall₂ (fun id child => id.SameName (idIn table.nodes child.position)) ids
      (forest.map Tree.label) := by
  have hfind := mapM_eq_ok_iff.mp h
  rw [List.forall₂_map_right_iff] at hfind ⊢
  exact hfind.imp fun id tree hid => (hi.find_eq_ok_iff.mp hid).2

/-- What is gone through in the list of the first node is what it lists. -/
theorem listed_of_items {node : Fields α} {ids : List (Value α)}
    (h : (node.get "children").items = .ok ids) : listed node = ids := by
  have hempty : (Value.list ([] : List (Value α))).items = .ok [] := rfl
  unfold listed Value.orElse
  cases htruthy : (node.get "children").truthy with
  | true => simp [h, Except.toOption]
  | false =>
    have hids : ids = [] := by
      cases hc : node.get "children" <;>
        simp_all [Value.items, Value.truthy, String.isEmpty_iff]
    simp [hids, hempty, Except.toOption]

theorem listed_of_childPositions {table : NodeTable α} {node : Fields α} {id : Value α}
    {below : List Nat} (h : childPositions table node id = .ok below) :
    table.findAll (listed node) (NodeTable.referrer id) = .ok below := by
  obtain ⟨ids, hids, hfind⟩ := bind_eq_ok.mp h
  rw [listed, hids]
  exact hfind

/-- The trail of a walk over a whole tree. -/
def trailOf (source : Tree (SourceNode α)) : Trail α :=
  (entries source.label source.children).reverse ++ [(source.label.key, source.label.call.id)]

omit [Scalar α] in
theorem map_fst_trailOf (source : Tree (SourceNode α)) :
    (trailOf source).map Prod.fst = (source.walkOrder.map (·.key)).reverse := by
  obtain ⟨root, forest⟩ := source
  have hkeys : (entries root forest).map Prod.fst =
      (walkOrderAll forest).map (·.key) := by
    rw [← map_fst_standAll (·.elided) root forest, entries, List.map_map, List.map_map]
    rfl
  simp [trailOf, walkOrder, hkeys]

/-- The walk from the first node on went over the tree. -/
structure WalkedFromRoot (table : NodeTable α) (time : α) (keepNatives : Bool)
    (source : Tree (SourceNode α)) (tree : CallTree α) (trail : Trail α) : Prop where
  root : source.label.position = 0
  rootKept : source.label.elided = false
  rootKey : (idIn table.nodes 0).key = .ok source.label.key
  rootCall : Call.ofFields time (nodeIn table.nodes 0) = .ok source.label.call
  rootChildren : ∃ referrer, table.findAll (listed (nodeIn table.nodes 0)) referrer =
    .ok (source.children.map (·.label.position))
  unfolds : Unfolds table time keepNatives source.children
  bounds : ∀ node ∈ labelsAll source.children, node.position < table.nodes.length
  tracks : Tracks table trail
  tree : tree = grown (.leaf source.label.call) source.children
  trail : trail = trailOf source

theorem exists_walkedFromRoot {table : NodeTable α} (hi : table.Indexed) {time : α}
    {keepNatives : Bool} {tree : CallTree α} {trail : Trail α} (hpos : 0 < table.nodes.length)
    (h : fromRoot table time keepNatives = .ok (tree, trail)) :
    ∃ source, WalkedFromRoot table time keepNatives source tree trail := by
  obtain ⟨-, id, key, call, ids, below, hid, hkey, hcall, hitems, hbelow, hwalk⟩ :=
    fromRoot_eq_ok_iff.mp h
  have hrootId : idIn table.nodes 0 = id := Fields.get_of_require hid
  have hcallId : call.id = id := by rw [(Call.reports_of_ofFields hcall).id, ← hrootId, idIn]
  have hrootKey : (idIn table.nodes 0).key = .ok key := by rw [hrootId, hkey]
  have htracks : Tracks table [(key, id)] :=
    ⟨List.nodup_singleton _, by simpa using (key_mem_names hi hpos hrootKey).2⟩
  have hbounds : ∀ child ∈ below.reverse, child < table.nodes.length := by
    intro child hchild
    obtain ⟨name, -, hname⟩ := mem_of_mapM hbelow (List.mem_reverse.mp hchild)
    exact (hi.find_eq_ok_iff.mp hname).1
  obtain ⟨forest, hwalked⟩ := forest_of_walk hi table.nodes.length
    ⟨0, key, call, false, below⟩ hbounds htracks (by rw [List.length_singleton]; omega) rfl hwalk
  have hroots : forest.map (·.label.position) = below := by
    rw [hwalked.roots, List.reverse_reverse]
  refine ⟨.node ⟨0, key, call, false, below⟩ forest, rfl, rfl, hrootKey, hcall,
    ⟨referrer id, ?_⟩, hwalked.unfolds, hwalked.bounds, hwalked.tracks, hwalked.owner, ?_⟩
  · rw [children_node, hroots, listed_of_items hitems]
    exact hbelow
  · refine hwalked.trail.trans ?_
    simp [trailOf, hcallId]

namespace WalkedFromRoot

variable {table : NodeTable α} {time : α} {keepNatives : Bool} {source : Tree (SourceNode α)}
  {tree : CallTree α} {trail : Trail α}

omit [Scalar α] in
/-- What holds of the root and of all below it holds of all nodes. -/
theorem forall_mem_labels {P : SourceNode α → Prop} (hroot : P source.label)
    (hbelow : ∀ node ∈ labelsAll source.children, P node) : ∀ node ∈ source.labels, P node := by
  obtain ⟨root, forest⟩ := source
  exact List.forall_mem_cons.mpr ⟨hroot, hbelow⟩

theorem read_of_mem (h : WalkedFromRoot table time keepNatives source tree trail)
    {node : SourceNode α} (hnode : node ∈ labelsAll source.children) :
    read table time keepNatives node.position = .ok node := by
  rw [labelsAll_eq] at hnode
  obtain ⟨⟨label, inner⟩, hmem, rfl⟩ := List.mem_map.mp hnode
  exact (h.unfolds label inner hmem).1

theorem lt (h : WalkedFromRoot table time keepNatives source tree trail)
    (hpos : 0 < table.nodes.length) : ∀ node ∈ source.labels, node.position < table.nodes.length :=
  forall_mem_labels (h.root ▸ hpos) h.bounds

theorem key (h : WalkedFromRoot table time keepNatives source tree trail) :
    ∀ node ∈ source.labels, (idIn table.nodes node.position).key = .ok node.key :=
  forall_mem_labels (h.root ▸ h.rootKey) fun _ hnode =>
    (read_eq_ok_iff.mp (h.read_of_mem hnode)).2.1

theorem call (h : WalkedFromRoot table time keepNatives source tree trail) :
    ∀ node ∈ source.labels, Call.ofFields time (nodeIn table.nodes node.position) = .ok node.call :=
  forall_mem_labels (h.root ▸ h.rootCall) fun _ hnode =>
    (read_eq_ok_iff.mp (h.read_of_mem hnode)).2.2.1

theorem elided (h : WalkedFromRoot table time keepNatives source tree trail) :
    ∀ node ∈ source.labels, node.position ≠ 0 →
      isElided keepNatives (nodeIn table.nodes node.position) = .ok node.elided :=
  forall_mem_labels (fun hne => absurd h.root hne) fun _ hnode _ =>
    (read_eq_ok_iff.mp (h.read_of_mem hnode)).2.2.2.1

/-- If all nodes were met, each of them stands in the tree once. -/
theorem positions (h : WalkedFromRoot table time keepNatives source tree trail)
    (hi : table.Indexed) (hpos : 0 < table.nodes.length)
    (hlength : trail.length = table.nodes.length) :
    (source.labels.map (·.position)).Perm (List.range table.nodes.length) := by
  have htrail := map_fst_trailOf source
  rw [← h.trail] at htrail
  refine perm_range_of_nodup ?_ (by simpa using h.lt hpos) ?_
  · -- nodes at one position would have one key
    have hnd := h.tracks.nodup
    rw [htrail, List.nodup_reverse, ((walkOrder_perm source).map _).nodup_iff] at hnd
    refine .of_map (keyIn table.nodes) ?_
    rw [List.map_map]
    refine (List.map_congr_left fun node hnode => ?_) ▸ hnd
    exact (key_mem_names hi (h.lt hpos node hnode) (h.key node hnode)).1
  · have hsize := congrArg List.length htrail
    rw [List.length_map, List.length_reverse, List.length_map, (walkOrder_perm source).length_eq,
      hlength] at hsize
    rw [List.length_map, hsize]

theorem children (h : WalkedFromRoot table time keepNatives source tree trail)
    (hi : table.Indexed) {node : SourceNode α} {below : List (SourceNode α)}
    (hmem : (node, below) ∈ source.flatten) :
    List.Forall₂ (fun id child => id.SameName (idIn table.nodes child.position))
      (listed (nodeIn table.nodes node.position)) below := by
  obtain ⟨root, forest⟩ := source
  rcases List.mem_cons.mp hmem with heq | hmem
  · obtain ⟨rfl, rfl⟩ := Prod.mk.inj heq
    obtain ⟨referrer, hfind⟩ := h.rootChildren
    have hroot : node.position = 0 := h.root
    rw [hroot]
    exact forall₂_of_findAll hi hfind
  · rw [flattenAll_eq] at hmem
    obtain ⟨⟨label, inner⟩, hinner, heq⟩ := List.mem_map.mp hmem
    obtain ⟨rfl, rfl⟩ := Prod.mk.inj heq
    obtain ⟨hlabel, hchildren⟩ := h.unfolds label inner hinner
    have hfind := listed_of_childPositions (read_eq_ok_iff.mp hlabel).2.2.2.2
    rw [hchildren] at hfind
    exact forall₂_of_findAll hi hfind

end WalkedFromRoot

/-! ## 3. The source tree of an accepted list -/

/-- What an accepted list and its result have to do with a source tree. -/
structure HasSource (nodes filled : List (Fields α)) (samples start finish : Value α)
    (keepNatives : Bool) (result : Contraction α) (time : α) (source : Tree (SourceNode α)) :
    Prop where
  /-- Only hits and children are filled in. -/
  others : ∀ position name, name ≠ "hitCount" → name ≠ "children" →
    (nodeIn filled position).get? name = (nodeIn nodes position).get? name
  hits : ∀ position < nodes.length, (nodeIn filled position).get "hitCount" =
    hitsIn nodes ((samples.items.toOption).getD []) position
  apart : sampleTime result.totalHits start finish = .ok time
  totalHits : NodeTable.totalHits ⟨filled, []⟩ = .ok result.totalHits
  describes : Describes nodes filled time keepNatives source
  tree : result.tree = grown (.leaf source.label.call) source.children
  samples : redirectSamples (trailOf source) samples = .ok result.samples

/-- **An accepted list describes a tree, and the result is made from it.** -/
theorem exists_source {nodes : List (Fields α)} {samples start finish : Value α}
    {keepNatives : Bool} {result : Contraction α}
    (h : (ofNodes (nodes.map .obj) samples start finish keepNatives).2 = .ok result) :
    ∃ filled time source,
      (ofNodes (nodes.map .obj) samples start finish keepNatives).1 = filled.map .obj ∧
      HasSource nodes filled samples start finish keepNatives result time source := by
  obtain ⟨hne, table, htable, hhits, hchildren, hresult⟩ := ofNodes_eq_ok_iff.mp h
  obtain ⟨htotal, time, htime, trail, hroot, hlength, hsamples⟩ := ofTable_eq_ok_iff.mp hresult
  have hfilled := filled_filledTable htable hchildren
  have hi := hfilled.indexed
  have hpos : 0 < (filledTable table samples).nodes.length :=
    hfilled.length ▸ List.length_pos_of_ne_nil hne
  obtain ⟨source, hsource⟩ := exists_walkedFromRoot hi hpos hroot
  refine ⟨_, time, source, ofNodes_fst_of_ok h htable, hfilled.others,
    fun _ => hits_filledTable htable hhits hchildren, htime, htotal, ?_, hsource.tree,
    hsource.trail ▸ hsamples⟩
  refine ⟨hsource.root, hsource.rootKept, ?_, hfilled.ids ▸ hsource.key, hsource.call,
    hsource.elided, ?_⟩
  · exact hfilled.length ▸ hsource.positions hi hpos hlength
  · intro node below hmem
    have hnode : node ∈ source.labels := List.mem_map.mpr ⟨_, hmem, rfl⟩
    rw [← hfilled.lists node.position (hfilled.length ▸ hsource.lt hpos node hnode), ← hfilled.ids]
    exact hsource.children hi hmem

end Contraction
end SampledProfile
