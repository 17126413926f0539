/-
# Making nodes roots one after the other

The places that a node has from earlier trees are still there when another node is made a root.  In
the new tree they are given anew: first every node met gets its index, depth and parent, then every
total starts with the share, and only then are totals added up.  From there on the run cannot be
told from one on nodes that were part of no tree yet (`Pool.renewed`).

* `Pool.SameNodes`: the same shares and children, whatever the places.  Trees are the same then
  (`Pool.SameNodes.treeFrom_eq`), and `Pool.rootAt` leaves shares and children
  (`Pool.IsTree.sameNodes_of_rootAt`), as shares are numbers (`Pool.listFree_of_number`);
* `Pool.started`: in the tree all is as in new nodes (`Pool.SameNodes.getElem?_started`), and
  outside of it all is as before (`Pool.IsTree.getElem?_started`);
* `Pool.InStep`: adding up keeps it so, since parents of nodes in the tree are in the tree;
* **the last of any sequence of roots leaves the tree as it is on renewed nodes, and all other nodes
  as they were** (`Pool.rootAt_renewed`).
-/
import SampledProfile.Proofs.Pool.Totals

namespace SampledProfile

/-! ## 1. Rounds and totals -/

variable {α : Type}

theorem Pool.total_put (pool : Pool α) (position : Nat) {change : TreePlace α → TreePlace α}
    (h : ∀ place, (change place).total = place.total) :
    (pool.put position change).total = pool.total := by
  funext other
  rw [Pool.total, Pool.put, Array.getElem?_modify, Pool.total]
  split
  · cases pool[other]? <;> simp [h]
  · rfl

namespace Round

theorem total_meetChildren (node : Tree Nat) (round : Round α) :
    (meetChildren node round).pool.total = round.pool.total := by
  have hall : ∀ (children : List (Tree Nat)) (depth : Nat) (round : Round α),
      (children.foldl (meet node.label depth) round).pool.total = round.pool.total := by
    intro children depth
    induction children with
    | nil => exact fun _ => rfl
    | cons child rest ih =>
      intro round
      rw [List.foldl_cons, ih]
      exact Pool.total_put _ _ fun _ => rfl
  exact hall _ _ round

/-- Going through trees does nothing to totals. -/
theorem total_traverse (stack : List (Tree Nat)) (round : Round α) :
    (traverse stack round).pool.total = round.pool.total := by
  induction stack, round using traverse.induct with
  | case1 round => rw [traverse]
  | case2 round node stack ih => rw [traverse, ih, total_meetChildren]

end Round

namespace Pool

open Outcome

variable {pool other : Pool α} {root : Nat}

theorem total_roundFrom (pool : Pool α) (root : Nat) :
    (pool.roundFrom root).pool.total = pool.total := by
  rw [roundFrom, Round.total_traverse, Round.start]
  exact total_put _ _ fun _ => rfl

/-- How a node stands, its share and its total are all there is. -/
theorem getElem?_congr {position : Nat}
    (hstanding : pool.standing position = other.standing position)
    (hshare : pool.share? position = other.share? position)
    (htotal : pool.total position = other.total position) : pool[position]? = other[position]? := by
  unfold standing at hstanding
  unfold share? at hshare
  unfold total at htotal
  cases hnode : pool[position]? with
  | none =>
    rw [hnode] at hshare
    cases hbeside : other[position]? with
    | none => rfl
    | some beside =>
      rw [hbeside] at hshare
      cases hshare
  | some node =>
    rw [hnode] at hstanding hshare htotal
    cases hbeside : other[position]? with
    | none =>
      rw [hbeside] at hshare
      cases hshare
    | some beside =>
      rw [hbeside] at hstanding hshare htotal
      obtain ⟨self, children, ⟨index, depth, parent, total⟩⟩ := node
      obtain ⟨self', children', ⟨index', depth', parent', total'⟩⟩ := beside
      cases hstanding
      cases hshare
      cases htotal
      rfl

/-! ## 2. The same nodes -/

/-- The nodes have the same shares and children; their places may be others. -/
structure SameNodes (pool other : Pool α) : Prop where
  shares : other.share? = pool.share?
  children : other.childrenOf = pool.childrenOf

namespace SameNodes

theorem refl (pool : Pool α) : SameNodes pool pool := ⟨rfl, rfl⟩

theorem symm (h : SameNodes pool other) : SameNodes other pool := ⟨h.shares.symm, h.children.symm⟩

theorem trans {third : Pool α} (h : SameNodes pool other) (h' : SameNodes other third) :
    SameNodes pool third :=
  ⟨h'.shares.trans h.shares, h'.children.trans h.children⟩

variable (h : SameNodes pool other)

include h

theorem size_eq : other.size = pool.size := by
  refine eq_of_forall_lt_iff fun position => ?_
  have hshare := congrArg Option.isSome (congrFun h.shares position)
  rw [share?, share?, Option.isSome_map, Option.isSome_map, Bool.eq_iff_iff] at hshare
  simpa using hshare

theorem subtree_eq (fuel root : Nat) : other.subtree fuel root = pool.subtree fuel root := by
  induction fuel generalizing root with
  | zero => rfl
  | succ fuel ih =>
    rw [subtree_succ, subtree_succ, h.children]
    exact congrArg (Tree.node root) (List.map_congr_left fun child _ => ih child)

/-- Trees do not depend on places. -/
theorem treeFrom_eq (root : Nat) : other.treeFrom root = pool.treeFrom root := by
  rw [treeFrom, treeFrom, h.size_eq, h.subtree_eq]

theorem descend_eq (way : List Nat) (position : Nat) :
    other.descend way position = pool.descend way position := by
  induction way generalizing position with
  | nil => rfl
  | cons index way ih =>
    rw [descend, descend, h.children]
    exact Option.bind_congr fun child _ => ih child

theorem reaches_iff {position : Nat} : other.Reaches root position ↔ pool.Reaches root position :=
  exists_congr fun way => by rw [h.descend_eq]

theorem isTree (htree : pool.IsTree root) : other.IsTree root := by
  constructor
  · intro position hposition
    rw [h.size_eq]
    exact htree.valid position (h.reaches_iff.mp hposition)
  · intro way beside position hway hbeside
    rw [h.descend_eq] at hway hbeside
    exact htree.unique way beside position hway hbeside

theorem canBeAdded [Scalar α] (hadd : pool.CanBeAdded root) : other.CanBeAdded root := by
  obtain ⟨fits, hadd, hshares⟩ := hadd
  refine ⟨fits, hadd, fun position hposition => ?_⟩
  rw [h.shares]
  exact hshares position (h.reaches_iff.mp hposition)

end SameNodes

/-- No node has a list as its share.  Shares are numbers, and all that is asked of them here is that
they do not change with the total, as a list would that others are added to. -/
def ListFree (pool : Pool α) : Prop := ∀ position items, pool.share? position ≠ some (.list items)

theorem listFree_of_number (h : ∀ position share, pool.share? position = some share →
    ∃ x, share = .num x) : pool.ListFree := by
  intro position items hshare
  obtain ⟨x, hx⟩ := h position _ hshare
  cases hx

theorem SameNodes.listFree (h : SameNodes pool other) (hlists : pool.ListFree) :
    other.ListFree := fun position => h.shares ▸ hlists position

/-- Making a node a root leaves shares and children, if no share is a list. -/
theorem IsTree.sameNodes_of_rootAt [Scalar α] (h : pool.IsTree root) (hlists : pool.ListFree)
    {result : Pool α} {layout : Layout α} (hresult : pool.rootAt root = .ok (result, layout)) :
    SameNodes pool result := by
  refine ⟨funext fun position => ?_, funext (h.laid_of_rootAt hresult).children⟩
  obtain ⟨hadded, -⟩ := rootAt_eq_ok.mp hresult
  have hshares := h.mirrors_roundFrom.shares
  rw [share?_addUp (hshares ▸ hlists position) hadded, hshares]

/-! ## 3. Before totals are added up -/

/-- The pool with all places of a tree given anew and all its totals started. -/
def started (pool : Pool α) (root : Nat) : Pool α :=
  (pool.roundFrom root).met.toList.foldl restart (pool.roundFrom root).pool

theorem standing_started (pool : Pool α) (root : Nat) :
    (pool.started root).standing = (pool.roundFrom root).pool.standing :=
  standing_foldl_restart _ _

namespace IsTree

variable (h : pool.IsTree root)

include h

theorem share?_started : (pool.started root).share? = pool.share? := by
  rw [started, share?_foldl_restart, h.mirrors_roundFrom.shares]

/-- Nodes outside of the tree are as they were. -/
theorem getElem?_started {position : Nat} (hposition : ¬ pool.Reaches root position) :
    (pool.started root)[position]? = pool[position]? := by
  have hmirrors := h.mirrors_roundFrom
  have hmem : position ∉ (pool.roundFrom root).met.toList := fun hmem =>
    hposition (h.mem_met.mp hmem)
  refine getElem?_congr ?_ (congrFun h.share?_started position) ?_
  · rw [standing_started, hmirrors.others position (hmirrors.met ▸ hmem)]
  · rw [started, total_foldl_restart, if_neg hmem, total_roundFrom]

end IsTree

namespace SameNodes

variable (h : SameNodes pool other) (htree : pool.IsTree root)

include h htree

/-- The round meets the same nodes. -/
theorem met_eq : (other.roundFrom root).met.toList = (pool.roundFrom root).met.toList ∧
    (other.roundFrom root).deepest = (pool.roundFrom root).deepest := by
  have hmirrors := htree.mirrors_roundFrom
  have hbeside := (h.isTree htree).mirrors_roundFrom
  rw [h.treeFrom_eq] at hbeside
  exact ⟨hbeside.met.trans hmirrors.met.symm, hbeside.deepest.trans hmirrors.deepest.symm⟩

/-- **In the tree no node is told from another with the same share and children.** -/
theorem getElem?_started {position : Nat} (hposition : pool.Reaches root position) :
    (pool.started root)[position]? = (other.started root)[position]? := by
  have hbeside := h.isTree htree
  have hmem := htree.mem_met.mpr hposition
  have hmem' := hbeside.mem_met.mpr (h.reaches_iff.mpr hposition)
  have hshare : (pool.started root).share? = (other.started root).share? := by
    rw [htree.share?_started, hbeside.share?_started, h.shares]
  refine getElem?_congr ?_ (congrFun hshare position) ?_
  · have hmirrors := htree.mirrors_roundFrom
    have hbesides := hbeside.mirrors_roundFrom
    rw [h.treeFrom_eq] at hbesides
    rw [hmirrors.met] at hmem
    obtain ⟨index, hlabel⟩ := List.mem_iff_getElem?.mp hmem
    rw [standing_started, standing_started, hmirrors.standing index position hlabel,
      hbesides.standing index position hlabel, h.children]
  · rw [started, started, total_foldl_restart, total_foldl_restart, if_pos hmem, if_pos hmem',
      htree.mirrors_roundFrom.shares, hbeside.mirrors_roundFrom.shares, h.shares]

end SameNodes

/-! ## 4. Adding up -/

/-- Some nodes are alike in two pools, and have their parents among them.  In the first one the
others are as they were before. -/
structure InStep (nodes : List Nat) (before pool other : Pool α) : Prop where
  same : ∀ position ∈ nodes, pool[position]? = other[position]?
  outside : ∀ position ∉ nodes, pool[position]? = before[position]?
  closed : ∀ position ∈ nodes, ∀ above, pool.parentOf? position = some above → above ∈ nodes

variable [Scalar α] {nodes : List Nat} {before : Pool α}

/-- **A node that is added to its parent is so in both pools, and nowhere outside.** -/
theorem InStep.addInto (h : InStep nodes before pool other) {position : Nat}
    (hposition : position ∈ nodes) :
    Alike (InStep nodes before) (pool.addInto position) (other.addInto position) := by
  have hbeside : other.parentOf? position = pool.parentOf? position := by
    rw [parentOf?, ← h.same position hposition, parentOf?]
  cases hparent : pool.parentOf? position with
  | none =>
    rw [addInto_of_root hparent, addInto_of_root (hbeside.trans hparent)]
    exact .ok h
  | some above =>
    have habove := h.closed position hposition above hparent
    have htotals : ∀ place ∈ nodes, other.total place = pool.total place := fun place hplace => by
      rw [total, ← h.same place hplace, total]
    rw [addInto_eq hparent, addInto_eq (hbeside.trans hparent), htotals above habove,
      htotals position hposition]
    refine Alike.bind_same fun total _ => .ok ?_
    constructor
    · intro place hplace
      rw [Array.getElem?_modify, Array.getElem?_modify, h.same place hplace]
    · intro place hplace
      have hne : above ≠ place := fun heq => hplace (heq ▸ habove)
      rw [Array.getElem?_modify, if_neg hne, h.outside place hplace]
    · intro place hplace higher hhigher
      rw [parentOf?_eq, standing_withTotal, ← parentOf?_eq] at hhigher
      exact h.closed place hplace higher hhigher

/-- All nodes of the tree are added up in step. -/
theorem InStep.foldlM_addInto (h : InStep nodes before pool other) {rest : List Nat}
    (hrest : ∀ position ∈ rest, position ∈ nodes) :
    Alike (InStep nodes before) (rest.foldlM Pool.addInto pool)
      (rest.foldlM Pool.addInto other) := by
  refine Alike.foldlM (R := fun position beside => position = beside ∧ position ∈ nodes)
    (List.forall₂_same.mpr fun position hposition => ⟨rfl, hrest position hposition⟩) ?_ h
  rintro pool other hstep position _ ⟨rfl, hposition⟩
  exact hstep.addInto hposition

/-- **Making a node a root goes alike for the same nodes: the trees are the same, and nodes outside
are as they were.** -/
theorem SameNodes.alike_rootAt (h : SameNodes pool other) (htree : pool.IsTree root) :
    Alike (fun after single => after.2 = single.2 ∧ ∀ position,
        (pool.Reaches root position → after.1[position]? = single.1[position]?) ∧
        (¬ pool.Reaches root position → after.1[position]? = pool[position]?))
      (pool.rootAt root) (other.rootAt root) := by
  obtain ⟨hmet, hdeepest⟩ := h.met_eq htree
  have hstart : InStep (pool.roundFrom root).met.toList pool (pool.started root)
      (other.started root) := by
    constructor
    · exact fun position hposition => h.getElem?_started htree (htree.mem_met.mp hposition)
    · exact fun position hposition =>
        htree.getElem?_started fun hreached => hposition (htree.mem_met.mpr hreached)
    · intro position hposition above habove
      rw [parentOf?_eq, standing_started, ← parentOf?_eq] at habove
      exact htree.mem_met_of_parentOf? hposition habove
  have hadded := hstart.foldlM_addInto fun position
    (hposition : position ∈ (pool.roundFrom root).met.toList.reverse) =>
      List.mem_reverse.mp hposition
  rw [rootAt_eq, rootAt_eq, addUp, addUp, ← started, ← started, hmet, hdeepest]
  refine hadded.bind fun after single hstep => .ok ⟨?_, fun position => ⟨?_, ?_⟩⟩
  · have htotal : after.total root = single.total root := by
      rw [total, hstep.same root (htree.mem_met.mpr (Reaches.refl pool root)), total]
    rw [htotal]
  · exact fun hposition => hstep.same position (htree.mem_met.mpr hposition)
  · exact fun hposition => hstep.outside position fun hmem => hposition (htree.mem_met.mp hmem)

/-! ## 5. One root after the other -/

/-- Makes some nodes roots, one after the other. -/
def rootEach : List Nat → Pool α → Except Fault (Pool α)
  | [], pool => .ok pool
  | root :: rest, pool => do
    let (next, _) ← pool.rootAt root
    rootEach rest next

/-- The pool with nodes that were part of no tree yet. -/
def renewed (pool : Pool α) : Pool α := pool.map fun node => fresh node.self node.children

theorem sameNodes_renewed (pool : Pool α) : SameNodes pool pool.renewed := by
  constructor
  · funext position
    rw [share?, renewed, Array.getElem?_map, share?]
    cases pool[position]? <;> rfl
  · funext position
    rw [childrenOf, renewed, Array.getElem?_map, childrenOf]
    cases pool[position]? <;> rfl

/-- Shares and children stay, whatever nodes are made roots. -/
theorem sameNodes_rootEach (hlists : pool.ListFree) {roots : List Nat}
    (htrees : ∀ root ∈ roots, pool.IsTree root) (h : pool.rootEach roots = .ok other) :
    SameNodes pool other := by
  induction roots generalizing pool with
  | nil =>
    cases h
    exact .refl _
  | cons root rest ih =>
    obtain ⟨htree, hrest⟩ := List.forall_mem_cons.mp htrees
    obtain ⟨⟨middle, layout⟩, hmiddle, h⟩ := bind_eq_ok.mp h
    have hsame := htree.sameNodes_of_rootAt hlists hmiddle
    have hrest := ih (hsame.listFree hlists) (fun root hroot => hsame.isTree (hrest root hroot)) h
    exact hsame.trans hrest

/-- Where all shares can be added, no root fails. -/
theorem exists_rootEach (hlists : pool.ListFree) {roots : List Nat}
    (htrees : ∀ root ∈ roots, pool.IsTree root) (hadd : ∀ root ∈ roots, pool.CanBeAdded root) :
    ∃ other, pool.rootEach roots = .ok other := by
  induction roots generalizing pool with
  | nil => exact ⟨pool, rfl⟩
  | cons root rest ih =>
    obtain ⟨htree, htrees⟩ := List.forall_mem_cons.mp htrees
    obtain ⟨hroot, hadd⟩ := List.forall_mem_cons.mp hadd
    obtain ⟨middle, layout, hmiddle⟩ := htree.exists_rootAt hroot
    have hsame := htree.sameNodes_of_rootAt hlists hmiddle
    obtain ⟨other, hother⟩ := ih (hsame.listFree hlists)
      (fun root hroot => hsame.isTree (htrees root hroot))
      fun root hroot => hsame.canBeAdded (hadd root hroot)
    exact ⟨other, bind_eq_ok.mpr ⟨(middle, layout), hmiddle, hother⟩⟩

/-- What the last of several roots leaves behind: the tree is the one that it is on new nodes, all
of its nodes are as they are there, and the others are as they were before.  Shares and children are
what they were from the beginning. -/
structure LeavesNew (pool before : Pool α) (last : Nat) (after single : Pool α × Layout α) :
    Prop where
  layout : after.2 = single.2
  root : after.2.nodes[0]? = some last
  reached : ∀ position, pool.Reaches last position → after.1[position]? = single.1[position]?
  others : ∀ position, ¬ pool.Reaches last position → after.1[position]? = before[position]?
  same : SameNodes pool after.1

/-- **Whatever nodes were made roots before, of overlapping trees or not, the last root leaves its
tree as it would on nodes that were part of no tree yet, and all other nodes as they were; shares
and children never change.  It fails where it would fail on such nodes, and no root fails where
shares can be added.  Shares are numbers, of which only `ListFree` is needed.** -/
theorem rootAt_renewed (hlists : pool.ListFree) {roots : List Nat} {last : Nat}
    (htrees : ∀ root ∈ last :: roots, pool.IsTree root) :
    (∀ before, pool.rootEach roots = .ok before →
      SameNodes pool before ∧
      Alike (pool.LeavesNew before last) (before.rootAt last) (pool.renewed.rootAt last)) ∧
    ((∀ root ∈ last :: roots, pool.CanBeAdded root) →
      ∃ before after, pool.rootEach roots = .ok before ∧ before.rootAt last = .ok after) := by
  obtain ⟨hlast, hroots⟩ := List.forall_mem_cons.mp htrees
  constructor
  · intro before hbefore
    have hsame := sameNodes_rootEach hlists hroots hbefore
    have htree := hsame.isTree hlast
    have hrun := (hsame.symm.trans pool.sameNodes_renewed).alike_rootAt htree
    refine ⟨hsame, hrun.imp fun after single hafter hnew => ?_⟩
    obtain ⟨hlayout, hnodes⟩ := hnew
    have hresult := htree.sameNodes_of_rootAt (hsame.listFree hlists) hafter
    constructor
    · exact hlayout
    · exact (htree.laid_of_rootAt hafter).root_first
    · exact fun position hposition => (hnodes position).1 (hsame.reaches_iff.mpr hposition)
    · exact fun position hposition =>
        (hnodes position).2 fun hreached => hposition (hsame.reaches_iff.mp hreached)
    · exact hsame.trans hresult
  · intro hadd
    obtain ⟨haddLast, haddRoots⟩ := List.forall_mem_cons.mp hadd
    obtain ⟨before, hbefore⟩ := exists_rootEach hlists hroots haddRoots
    have hsame := sameNodes_rootEach hlists hroots hbefore
    obtain ⟨result, layout, hresult⟩ :=
      (hsame.isTree hlast).exists_rootAt (hsame.canBeAdded haddLast)
    exact ⟨before, (result, layout), hbefore, hresult⟩

/-- Four nodes one below the other, but for the last two, which are beside each other. -/
def chainPool : Pool Number :=
  #[fresh (.int 1) [1], fresh (.int 2) [2, 3], fresh (.int 4) [], fresh (.int 8) []]

theorem rootAt_renewed_chainPool : chainPool.ListFree ∧
    (∀ root ∈ [1, 0, 3], chainPool.IsTree root) ∧
    ∃ before after single, chainPool.rootEach [0, 3] = .ok before ∧
      before.rootAt 1 = .ok after ∧ chainPool.renewed.rootAt 1 = .ok single ∧
      after.2 = single.2 ∧ after.1[1]? = single.1[1]? ∧ after.1[0]? = before[0]? := by
  have hshares : ∀ position share, chainPool.share? position = some share →
      ∃ n, share = .num (.int n) := by
    intro position share hshare
    match position, hshare with
    | 0, rfl | 1, rfl | 2, rfl | 3, rfl => exact ⟨_, rfl⟩
  have hlists : chainPool.ListFree := listFree_of_number fun position share hshare => by
    obtain ⟨n, rfl⟩ := hshares position share hshare
    exact ⟨_, rfl⟩
  have htrees : ∀ root ∈ [1, 0, 3], chainPool.IsTree root := by decide +kernel
  have hadd : ∀ root ∈ [1, 0, 3], chainPool.CanBeAdded root := fun root hroot =>
    canBeAdded_of_int fun position hposition => by
      have hvalid := (htrees root hroot).valid position hposition
      have hshare : chainPool.share? position = some chainPool[position].self := by
        rw [share?, Array.getElem?_eq_getElem hvalid, Option.map_some]
      obtain ⟨n, hnumber⟩ := hshares position _ hshare
      exact ⟨n, hshare.trans (congrArg some hnumber)⟩
  obtain ⟨hrenewed, hruns⟩ := rootAt_renewed hlists htrees
  obtain ⟨before, after, hbefore, hafter⟩ := hruns hadd
  obtain ⟨single, hsingle, hnew⟩ := (hrenewed before hbefore).2.exists_ok hafter
  have hunreached : ¬ chainPool.Reaches 1 0 := by
    rw [← (htrees 1 (by decide)).mem_labels_treeFrom]
    decide +kernel
  exact ⟨hlists, htrees, before, after, single, hbefore, hafter, hsingle, hnew.layout,
    hnew.reached 1 (Reaches.refl _ _), hnew.others 0 hunreached⟩

end Pool
end SampledProfile
