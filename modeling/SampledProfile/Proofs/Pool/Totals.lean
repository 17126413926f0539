/-
# Totals in a pool

`Pool.addUp` goes through the nodes met from the last to the first and adds the total of each to its
parent's, wherever in the pool the parent is.  It goes by nothing but the parents that nodes name,
so what is proved of it first (`Pool.total_foldlM_addInto`) asks one thing only: nobody names itself
or a node met later.  When the turn of a node comes, nothing is added to it any more.

* `Pool.IsArena.filter_parentOf?`: those who name a node as their parent are its children;
* `Pool.AddsUp`: the total of a node is its share, with the totals of its children added one by one
  from the last to the first.  Nothing is asked of addition, and shares may be of any kind;
* where shares are numbers that can be added, so are totals, and where they are added exactly the
  total of a node is the sum of the shares of all that can be reached from it
  (`Pool.SumsUp`, `Pool.totals_of_rootAt`).
-/
import Mathlib.Algebra.BigOperators.Group.List.Basic
import Mathlib.Algebra.Ring.Int.Defs
import Mathlib.Data.List.Induction
import SampledProfile.Proofs.Pool.Rooted

namespace SampledProfile
namespace Pool

open Outcome

variable {α : Type} {pool next : Pool α} {root : Nat}

/-! ## 1. One node -/

@[simp] theorem total_withTotal (total : Value α) (node : PoolNode α) :
    (withTotal total node).place.total = total := by
  cases hself : node.self <;> simp [withTotal, hself]

theorem share?_foldl_restart : ∀ (met : List Nat) (pool : Pool α),
    (met.foldl restart pool).share? = pool.share?
  | [], _ => rfl
  | position :: rest, pool =>
    (share?_foldl_restart rest _).trans (share?_restart pool position)

/-- Nodes that were met start with their shares, and the others keep their totals. -/
theorem total_foldl_restart (met : List Nat) (pool : Pool α) (position : Nat) :
    (met.foldl restart pool).total position =
      if position ∈ met then (pool.share? position).getD .null else pool.total position := by
  induction met generalizing pool with
  | nil => rfl
  | cons start rest ih =>
    rw [List.foldl_cons, ih, share?_restart, total_restart]
    by_cases hrest : position ∈ rest
    · rw [if_pos hrest, if_pos (List.mem_cons_of_mem _ hrest)]
    · by_cases hstart : start = position
      · rw [if_neg hrest, if_pos hstart, if_pos (hstart ▸ List.mem_cons_self)]
      · have hmem : position ∉ start :: rest := fun hmem =>
          (List.mem_cons.mp hmem).elim (fun heq => hstart heq.symm) hrest
        rw [if_neg hrest, if_neg hstart, if_neg hmem]

section AddInto

variable [Scalar α] {position above : Nat}

/-- A root adds to nothing. -/
theorem addInto_of_root (hparent : pool.parentOf? position = none) :
    pool.addInto position = .ok pool := by
  unfold addInto
  rw [parentOf?] at hparent
  rw [hparent]

/-- A node adds its total to its parent's. -/
theorem addInto_eq (hparent : pool.parentOf? position = some above) :
    pool.addInto position = do
      let total ← gather (pool.total above) (pool.total position)
      return pool.modify above (withTotal total) := by
  unfold addInto
  rw [parentOf?] at hparent
  rw [hparent]

/-- Nothing is done to any node but the parent. -/
theorem getElem?_addInto (h : pool.addInto position = .ok next) {place : Nat}
    (hplace : pool.parentOf? position ≠ some place) : next[place]? = pool[place]? := by
  cases hparent : pool.parentOf? position with
  | none =>
    rw [addInto_of_root hparent] at h
    cases h
    rfl
  | some above =>
    rw [addInto_eq hparent] at h
    obtain ⟨total, -, h⟩ := bind_eq_ok.mp h
    cases h
    have hne : above ≠ place := fun heq => hplace (hparent.trans (congrArg some heq))
    rw [Array.getElem?_modify, if_neg hne]

theorem total_addInto_of_ne (h : pool.addInto position = .ok next) {place : Nat}
    (hplace : pool.parentOf? position ≠ some place) : next.total place = pool.total place := by
  rw [total, getElem?_addInto h hplace, total]

/-- Nothing can be added to where there is no node. -/
theorem lt_size_of_gather {total other : Value α}
    (h : gather (pool.total above) other = .ok total) : above < pool.size := by
  by_contra hsize
  have hnull : pool.total above = .null := by
    rw [Pool.total, Array.getElem?_eq_none (Nat.le_of_not_lt hsize)]
    rfl
  rw [hnull] at h
  simp [gather, Value.add, Value.number?] at h

/-- The parent has what it had, with the total of the node added. -/
theorem total_addInto_parent (hparent : pool.parentOf? position = some above)
    (h : pool.addInto position = .ok next) :
    gather (pool.total above) (pool.total position) = .ok (next.total above) := by
  rw [addInto_eq hparent] at h
  obtain ⟨total, htotal, h⟩ := bind_eq_ok.mp h
  have hsize := lt_size_of_gather htotal
  cases h
  rw [htotal, Pool.total, Array.getElem?_modify, if_pos rfl, Array.getElem?_eq_getElem hsize]
  simp

/-- A share that is no list stays. -/
theorem share?_addInto {place : Nat} (hshare : ∀ items, pool.share? place ≠ some (.list items))
    (h : pool.addInto position = .ok next) : next.share? place = pool.share? place := by
  by_cases hplace : pool.parentOf? position = some place
  · rw [addInto_eq hplace] at h
    obtain ⟨total, -, h⟩ := bind_eq_ok.mp h
    cases h
    rw [share?] at hshare ⊢
    rw [Array.getElem?_modify, if_pos rfl, share?]
    cases hnode : pool[place]? with
    | none => rfl
    | some node =>
      rw [hnode] at hshare
      cases hself : node.self <;> simp_all [withTotal]
  · rw [share?, getElem?_addInto h hplace, share?]

end AddInto

/-! ## 2. All nodes, from the last to the first -/

section AddUp

variable [Scalar α]

/-- **Once some nodes have been added up, each node has what it had before and the totals of those
that name it as their parent, the last one first.**  Nobody names itself or one that comes later. -/
theorem total_foldlM_addInto (front : List Nat) {pool next : Pool α}
    (hself : ∀ position ∈ front, pool.parentOf? position ≠ some position)
    (hlater : front.Pairwise fun earlier later => pool.parentOf? earlier ≠ some later)
    (h : front.reverse.foldlM addInto pool = .ok next) (place : Nat) :
    (front.filter fun child => pool.parentOf? child = some place).reverse.foldlM
      (fun sum child => gather sum (next.total child)) (pool.total place) =
        .ok (next.total place) := by
  induction front using List.reverseRecOn generalizing pool place with
  | nil =>
    cases h
    rfl
  | append_singleton front last ih =>
    rw [List.reverse_append, List.reverse_singleton, List.singleton_append,
      List.foldlM_cons] at h
    obtain ⟨middle, hmiddle, h⟩ := bind_eq_ok.mp h
    obtain ⟨hfront, -, hlast⟩ := List.pairwise_append.mp hlater
    have hparents : middle.parentOf? = pool.parentOf? := funext fun position => by
      rw [parentOf?_eq, standing_addInto hmiddle, ← parentOf?_eq]
    have hrest := fun place => ih
      (fun position hposition => hparents ▸ hself position (List.mem_append_left _ hposition))
      (hparents ▸ hfront) h place
    rw [hparents] at hrest
    -- nobody before the last one has it as a parent, so what it passes on is final
    have hnone : (front.filter fun child => pool.parentOf? child = some last) = [] :=
      List.filter_eq_nil_iff.mpr fun child hchild => by
        simpa using hlast child hchild last (List.mem_singleton_self _)
    have hfinal : next.total last = pool.total last := by
      have hkept := hrest last
      rw [hnone, List.reverse_nil, List.foldlM_nil] at hkept
      rw [← pure_eq_ok.mp hkept, total_addInto_of_ne hmiddle (hself last (by simp))]
    rw [List.filter_append, List.reverse_append, List.foldlM_append]
    by_cases hparent : pool.parentOf? last = some place
    · have hadded := total_addInto_parent hparent hmiddle
      rw [List.filter_singleton, decide_eq_true hparent, cond_true, List.reverse_singleton,
        List.foldlM_cons, hfinal, hadded]
      exact hrest place
    · have hkept := total_addInto_of_ne hmiddle hparent
      rw [List.filter_singleton, decide_eq_false hparent, cond_false, ← hkept]
      exact hrest place

theorem share?_foldlM_addInto (rest : List Nat) {pool next : Pool α} {place : Nat}
    (hshare : ∀ items, pool.share? place ≠ some (.list items))
    (h : rest.foldlM addInto pool = .ok next) : next.share? place = pool.share? place := by
  induction rest generalizing pool with
  | nil =>
    cases h
    rfl
  | cons position rest ih =>
    obtain ⟨middle, hmiddle, h⟩ := bind_eq_ok.mp h
    have hkept := share?_addInto hshare hmiddle
    exact (ih (hkept ▸ hshare) h).trans hkept

theorem share?_addUp {met : List Nat} {place : Nat}
    (hshare : ∀ items, pool.share? place ≠ some (.list items)) (h : pool.addUp met = .ok next) :
    next.share? place = pool.share? place := by
  rw [← share?_foldl_restart met pool] at hshare ⊢
  exact share?_foldlM_addInto _ hshare h

end AddUp

/-! ## 3. Children and parents -/

theorem Reaches.refl (pool : Pool α) (root : Nat) : pool.Reaches root root := ⟨[], rfl⟩

/-- Whoever is reached is the root or a child of one who is. -/
theorem Reaches.eq_or_child {position : Nat} (h : pool.Reaches root position) :
    position = root ∨ ∃ above, pool.Reaches root above ∧ position ∈ pool.childrenOf above := by
  obtain ⟨way, hway⟩ := h
  rcases List.eq_nil_or_concat way with rfl | ⟨way, index, rfl⟩
  · exact .inl (Option.some.inj hway).symm
  · rw [List.concat_eq_append, descend_append] at hway
    obtain ⟨above, habove, hstep⟩ := Option.bind_eq_some_iff.mp hway
    obtain ⟨child, hchild, hposition⟩ := Option.bind_eq_some_iff.mp hstep
    obtain rfl := Option.some.inj hposition
    exact .inr ⟨above, ⟨way, habove⟩, List.mem_of_getElem? hchild⟩

namespace IsArena

variable {result : Pool α} {layout : Layout α} (h : IsArena pool root result layout)

include h

/-- Whoever names a parent is a child of it. -/
theorem mem_childrenOf {position above : Nat} (hposition : position ∈ layout.nodes)
    (hparent : result.parentOf? position = some above) :
    above ∈ layout.nodes ∧ position ∈ pool.childrenOf above := by
  rcases ((h.mem_iff position).mp hposition).eq_or_child with rfl | ⟨other, hother, hchild⟩
  · rw [h.rootParent] at hparent
    cases hparent
  · have hmem := (h.mem_iff other).mpr hother
    obtain rfl : other = above :=
      Option.some.inj ((h.child other hmem position hchild).1.symm.trans hparent)
    exact ⟨hmem, hchild⟩

/-- A parent comes earlier. -/
theorem index_lt {index higher above : Nat} {position : Nat}
    (hposition : layout.nodes[index]? = some position)
    (hparent : result.parentOf? position = some above)
    (habove : layout.nodes[higher]? = some above) : higher < index := by
  obtain ⟨hmem, hchild⟩ := h.mem_childrenOf (List.mem_of_getElem? hposition) hparent
  obtain ⟨-, -, first, second, hfirst, hsecond, hlt⟩ := h.child above hmem position hchild
  obtain rfl := Option.some.inj (hfirst.symm.trans (h.index higher above habove))
  obtain rfl := Option.some.inj (hsecond.symm.trans (h.index index position hposition))
  exact hlt

/-- The root comes first. -/
theorem root_first : layout.nodes[0]? = some root := by
  obtain ⟨index, hindex⟩ := List.mem_iff_getElem?.mp ((h.mem_iff root).mpr (Reaches.refl pool root))
  obtain rfl := Option.some.inj ((h.index index root hindex).symm.trans h.rootIndex)
  exact hindex

/-- The children of a node come in their order. -/
theorem pairwise_childrenOf {position : Nat} (hposition : position ∈ layout.nodes) :
    (pool.childrenOf position).Pairwise fun child other => ∃ index after,
      result.indexOf? child = some index ∧ result.indexOf? other = some after ∧ index < after := by
  obtain ⟨first, hfirst⟩ := h.siblings position hposition
  refine List.pairwise_iff_getElem.mpr fun i j hi hj hij => ?_
  exact ⟨first + i, first + j, hfirst i _ (List.getElem?_eq_getElem hi),
    hfirst j _ (List.getElem?_eq_getElem hj), Nat.add_lt_add_left hij first⟩

/-- **Those who name a node as their parent are its children, and they come in their order.** -/
theorem filter_parentOf? {position : Nat} (hposition : position ∈ layout.nodes) :
    (layout.nodes.filter fun child => result.parentOf? child = some position) =
      pool.childrenOf position := by
  have hchildren := h.pairwise_childrenOf hposition
  have hnodes : layout.nodes.Pairwise fun child other => ∃ index after,
      result.indexOf? child = some index ∧ result.indexOf? other = some after ∧
        index < after := by
    refine List.pairwise_iff_getElem.mpr fun i j hi hj hij => ?_
    exact ⟨i, j, h.index i _ (List.getElem?_eq_getElem hi),
      h.index j _ (List.getElem?_eq_getElem hj), hij⟩
  have hnodup : (pool.childrenOf position).Nodup := hchildren.imp fun {child other} hrel heq => by
    obtain ⟨index, after, hindex, hafter, hlt⟩ := hrel
    rw [heq, hafter] at hindex
    exact absurd (Option.some.inj hindex) (Nat.ne_of_gt hlt)
  have hperm : (layout.nodes.filter fun child => result.parentOf? child = some position).Perm
      (pool.childrenOf position) := by
    refine (List.perm_ext_iff_of_nodup (h.nodup.filter _) hnodup).mpr fun child => ?_
    rw [List.mem_filter, decide_eq_true_eq]
    constructor
    · rintro ⟨hchild, hparent⟩
      exact (h.mem_childrenOf hchild hparent).2
    · intro hchild
      have hreached := ((h.mem_iff position).mp hposition).child hchild
      exact ⟨(h.mem_iff child).mpr hreached, (h.child position hposition child hchild).1⟩
  refine hperm.eq_of_pairwise (fun child other _ _ hrel hback => ?_) (hnodes.filter _) hchildren
  obtain ⟨index, after, hindex, hafter, hlt⟩ := hrel
  obtain ⟨low, high, hlow, hhigh, hback⟩ := hback
  obtain rfl := Option.some.inj (hindex.symm.trans hhigh)
  obtain rfl := Option.some.inj (hafter.symm.trans hlow)
  omega

end IsArena

/-! ## 4. Trees added up -/

/-- The total of a node is its share, with the totals of its children added one by one from the last
to the first. -/
def AddsUp [Scalar α] (pool result : Pool α) (position : Nat) : Prop :=
  ∃ share, pool.share? position = some share ∧
    (pool.childrenOf position).reverse.foldlM (fun sum child => gather sum (result.total child))
      share = .ok (result.total position)

/-- The round through the tree below a position. -/
def roundFrom (pool : Pool α) (root : Nat) : Round α :=
  Round.traverse [pool.treeFrom root] (Round.start pool root)

section RootAt

variable [Scalar α]

theorem rootAt_eq (pool : Pool α) (root : Nat) :
    pool.rootAt root = do
      let next ← (pool.roundFrom root).pool.addUp (pool.roundFrom root).met.toList
      return (next, ⟨(pool.roundFrom root).met.toList, (pool.roundFrom root).deepest,
        next.total root⟩) := rfl

variable {result : Pool α} {layout : Layout α}

theorem rootAt_eq_ok : pool.rootAt root = .ok (result, layout) ↔
    (pool.roundFrom root).pool.addUp (pool.roundFrom root).met.toList = .ok result ∧
      layout = ⟨(pool.roundFrom root).met.toList, (pool.roundFrom root).deepest,
        result.total root⟩ := by
  rw [rootAt_eq, bind_eq_ok]
  constructor
  · rintro ⟨next, hnext, h⟩
    cases h
    exact ⟨hnext, rfl⟩
  · rintro ⟨hnext, rfl⟩
    exact ⟨result, hnext, rfl⟩

namespace IsTree

variable (h : pool.IsTree root)

include h

omit [Scalar α] in
theorem mirrors_roundFrom :
    (pool.roundFrom root).Mirrors pool ((pool.treeFrom root).placed fun _ => ()) := by
  have hmirrors := Round.mirrors_traverse (fun _ => ()) h.nodup_treeFrom
    fun label hlabel => h.valid label (h.mem_labels_treeFrom.mp hlabel)
  rwa [show (pool.treeFrom root).label = root from label_subtree _ _ _] at hmirrors

omit [Scalar α] in
/-- The nodes met are those that can be reached. -/
theorem mem_met {position : Nat} :
    position ∈ (pool.roundFrom root).met.toList ↔ pool.Reaches root position := by
  rw [h.mirrors_roundFrom.met, (Tree.wellPlaced_placed (fun _ => ()) _).2.mem_iff,
    h.mem_labels_treeFrom]

omit [Scalar α] in
/-- Parents of nodes that were met were met too. -/
theorem mem_met_of_parentOf? {position above : Nat}
    (hposition : position ∈ (pool.roundFrom root).met.toList)
    (hparent : (pool.roundFrom root).pool.parentOf? position = some above) :
    above ∈ (pool.roundFrom root).met.toList := by
  rw [h.mirrors_roundFrom.met] at hposition ⊢
  obtain ⟨index, hlabel⟩ := List.mem_iff_getElem?.mp hposition
  rw [parentOf?_eq, h.mirrors_roundFrom.standing index position hlabel,
    Option.bind_some] at hparent
  obtain ⟨higher, -, hhigher⟩ := Option.bind_eq_some_iff.mp hparent
  exact List.mem_of_getElem? hhigher

theorem exists_rootAt (hadd : pool.CanBeAdded root) :
    ∃ result layout, pool.rootAt root = .ok (result, layout) := by
  obtain ⟨fits, hadd, hshares⟩ := hadd
  obtain ⟨result, hresult⟩ := exists_addUp hadd
    (fun position hposition => by
      rw [h.mirrors_roundFrom.shares]
      exact hshares position (h.mem_met.mp hposition))
    (fun position hposition above => h.mem_met_of_parentOf? hposition)
  exact ⟨result, _, rootAt_eq_ok.mpr ⟨hresult, rfl⟩⟩

theorem laid_of_rootAt (hresult : pool.rootAt root = .ok (result, layout)) :
    IsArena pool root result layout := by
  obtain ⟨hadded, rfl⟩ := rootAt_eq_ok.mp hresult
  exact h.isArena h.mirrors_roundFrom (standing_addUp hadded) _

/-- **Every node of a tree has its share and the totals of its children.** -/
theorem addsUp (hresult : pool.rootAt root = .ok (result, layout)) {position : Nat}
    (hposition : pool.Reaches root position) : pool.AddsUp result position := by
  have harena := h.laid_of_rootAt hresult
  obtain ⟨hadded, rfl⟩ := rootAt_eq_ok.mp hresult
  have hmirrors := h.mirrors_roundFrom
  have hmem := h.mem_met.mpr hposition
  generalize pool.roundFrom root = round at *
  have hparents : (round.met.toList.foldl restart round.pool).parentOf? = result.parentOf? :=
    funext fun other => by
      rw [parentOf?_eq, parentOf?_eq, standing_foldl_restart, standing_addUp hadded]
  have hself : ∀ other ∈ round.met.toList, result.parentOf? other ≠ some other := by
    intro other hother hparent
    obtain ⟨index, hindex⟩ := List.mem_iff_getElem?.mp hother
    exact Nat.lt_irrefl _ (harena.index_lt hindex hparent hindex)
  have hlater : round.met.toList.Pairwise fun earlier later =>
      result.parentOf? earlier ≠ some later := by
    refine List.pairwise_iff_getElem.mpr fun i j hi hj hij hparent => ?_
    have hlt := harena.index_lt (List.getElem?_eq_getElem hi) hparent (List.getElem?_eq_getElem hj)
    exact Nat.lt_asymm hij hlt
  obtain ⟨node, hnode⟩ : ∃ node, pool[position]? = some node :=
    ⟨_, Array.getElem?_eq_getElem (h.valid position hposition)⟩
  have hshare : pool.share? position = some node.self := by
    rw [share?, hnode, Option.map_some]
  refine ⟨node.self, hshare, ?_⟩
  have htotals := total_foldlM_addInto round.met.toList (hparents ▸ hself) (hparents ▸ hlater)
    hadded position
  rw [hparents, total_foldl_restart, if_pos hmem, hmirrors.shares, hshare,
    harena.filter_parentOf? hmem] at htotals
  exact htotals

end IsTree
end RootAt

/-! ## 5. Subtrees -/

theorem Reaches.trans {position other : Nat} (h : pool.Reaches root position)
    (hother : pool.Reaches position other) : pool.Reaches root other := by
  obtain ⟨way, hway⟩ := h
  obtain ⟨further, hfurther⟩ := hother
  exact ⟨way ++ further, by rw [descend_append, hway, Option.bind_some, hfurther]⟩

namespace IsTree

variable (h : pool.IsTree root)

include h

/-- What is below a node of a tree is a tree. -/
theorem of_reaches {position : Nat} (hposition : pool.Reaches root position) :
    pool.IsTree position := by
  refine ⟨fun other hother => h.valid other (hposition.trans hother), ?_⟩
  intro way other stop hway hother
  obtain ⟨first, hfirst⟩ := hposition
  refine List.append_cancel_left (h.unique (first ++ way) (first ++ other) stop ?_ ?_)
  · rw [descend_append, hfirst, Option.bind_some, hway]
  · rw [descend_append, hfirst, Option.bind_some, hother]

/-- **What holds of a node if it holds of its children holds of all nodes of a tree.** -/
@[elab_as_elim] theorem bottomUp {P : Nat → Prop} (step : ∀ position, pool.Reaches root position →
      (∀ child ∈ pool.childrenOf position, P child) → P position)
    {position : Nat} (hposition : pool.Reaches root position) : P position := by
  -- ways cannot be longer than the pool is large
  have hall : ∀ (room : Nat) (way : List Nat) (position : Nat),
      pool.descend way root = some position → way.length + room = pool.size → P position := by
    intro room
    induction room with
    | zero =>
      intro way position hway hroom
      exact absurd (h.length_lt hway) (by omega)
    | succ room ih =>
      intro way position hway hroom
      refine step position ⟨way, hway⟩ fun child hchild => ?_
      obtain ⟨index, hindex⟩ := List.mem_iff_getElem?.mp hchild
      refine ih (way ++ [index]) child ?_ ?_
      · rw [descend_append, hway, Option.bind_some, descend, hindex]
        rfl
      · rw [List.length_append, List.length_singleton]
        omega
  obtain ⟨way, hway⟩ := hposition
  exact hall (pool.size - way.length) way position hway
    (Nat.add_sub_cancel' (Nat.le_of_lt (h.length_lt hway)))

end IsTree

/-- Where each node has something of its own and what its children have, roots have what all nodes
below have of their own. -/
theorem sum_labelsAll {M : Type} [AddCommMonoid M] {whole own : Nat → M} (trees : List (Tree Nat))
    (hunfolds : ∀ tree ∈ trees, pool.Unfolds tree)
    (hwhole : ∀ label ∈ Tree.labelsAll trees,
      whole label = own label + ((pool.childrenOf label).map whole).sum) :
    ((trees.map Tree.label).map whole).sum = ((Tree.labelsAll trees).map own).sum := by
  induction trees using Tree.forest_induction with
  | nil => rfl
  | cons label below rest ihb ihr =>
    obtain ⟨hnode, hrest⟩ := List.forall_mem_cons.mp hunfolds
    obtain ⟨hchildren, hbelow⟩ := unfolds_node.mp hnode
    rw [Tree.labelsAll_cons, Tree.labels_node, List.cons_append, List.forall_mem_cons,
      List.forall_mem_append] at hwhole
    obtain ⟨hlabel, hwholeBelow, hwholeRest⟩ := hwhole
    rw [List.map_cons, List.map_cons, List.sum_cons, Tree.label_node, hlabel, ← hchildren,
      ihb hbelow hwholeBelow, ihr hrest hwholeRest]
    rw [Tree.labelsAll_cons, Tree.labels_node, List.cons_append, List.map_cons, List.sum_cons,
      List.map_append, List.sum_append, add_assoc]

/-! ## 6. Numbers -/

section Numbers

variable [Scalar α]

/-- The total of a node as a number, zero where it is none. -/
def totalNumber (pool : Pool α) (position : Nat) : α := (pool.total position).number?.getD 0

/-- The share of a node as a number, zero where it is none. -/
def shareNumber (pool : Pool α) (position : Nat) : α :=
  ((pool.share? position).bind Value.number?).getD 0

theorem shareNumber_eq {position : Nat} {share : α}
    (h : pool.share? position = some (.num share)) : pool.shareNumber position = share := by
  rw [shareNumber, h]
  rfl

/-- Two numbers of the kind have a sum, which is one of them. -/
def Addable (fits : α → Prop) : Prop :=
  ∀ x y, fits x → fits y → Scalar.combineFault x y = none ∧ fits (x + y)

variable {fits : α → Prop}

theorem gather_num {x y : α} (h : Scalar.combineFault x y = none) :
    gather (.num x) (.num y) = .ok (.num (x + y)) := by
  simp [gather, Value.add, Value.number?, Scalar.add?, h, Scalar.guarded, Except.map]

/-- Totals that are numbers of the kind are added up. -/
theorem foldlM_gather (hadd : Addable fits) {totals : Nat → Value α} {numbers : Nat → α}
    (children : List Nat) {sum : α} (hsum : fits sum)
    (hchildren : ∀ child ∈ children, totals child = .num (numbers child) ∧ fits (numbers child)) :
    children.foldlM (fun sum child => gather sum (totals child)) (.num sum) =
        .ok (.num (children.foldl (fun sum child => sum + numbers child) sum)) ∧
      fits (children.foldl (fun sum child => sum + numbers child) sum) := by
  induction children generalizing sum with
  | nil => exact ⟨rfl, hsum⟩
  | cons child rest ih =>
    obtain ⟨⟨htotal, hfits⟩, hrest⟩ := List.forall_mem_cons.mp hchildren
    obtain ⟨hfault, hnext⟩ := hadd sum (numbers child) hsum hfits
    rw [List.foldlM_cons, List.foldl_cons, htotal, gather_num hfault]
    exact ih hnext hrest

/-- A sum that is exact has the amounts of all its terms. -/
theorem amount_foldr {M : Type} [AddCommMonoid M] {amount : α → M} (hadd : Addable fits)
    (hamount : ∀ x y, fits x → fits y → amount (x + y) = amount x + amount y)
    {numbers : Nat → α} (children : List Nat) {start : α} (hstart : fits start)
    (hchildren : ∀ child ∈ children, fits (numbers child)) :
    fits (children.foldr (fun child sum => sum + numbers child) start) ∧
      amount (children.foldr (fun child sum => sum + numbers child) start) =
        amount start + (children.map fun child => amount (numbers child)).sum := by
  induction children with
  | nil => exact ⟨hstart, (add_zero _).symm⟩
  | cons child rest ih =>
    obtain ⟨hchild, hrest⟩ := List.forall_mem_cons.mp hchildren
    obtain ⟨hfits, hsum⟩ := ih hrest
    refine ⟨(hadd _ _ hfits hchild).2, ?_⟩
    rw [List.foldr_cons, hamount _ _ hfits hchild, hsum, List.map_cons, List.sum_cons, add_assoc,
      add_comm (amount (numbers child))]

/-- The total of a node is a number of the kind if its share and the totals of its children are. -/
theorem AddsUp.number {result : Pool α} {position : Nat} (h : pool.AddsUp result position)
    (hadd : Addable fits)
    (hshare : ∃ share, pool.share? position = some (.num share) ∧ fits share)
    (hchildren : ∀ child ∈ pool.childrenOf position,
      result.total child = .num (result.totalNumber child) ∧ fits (result.totalNumber child)) :
    result.total position = .num (result.totalNumber position) ∧
      fits (result.totalNumber position) ∧
      result.totalNumber position = (pool.childrenOf position).foldr
        (fun child sum => sum + result.totalNumber child) (pool.shareNumber position) := by
  obtain ⟨share, hshare, hfits⟩ := hshare
  obtain ⟨found, hfound, htotal⟩ := h
  obtain rfl := Option.some.inj (hfound.symm.trans hshare)
  have hnumber := shareNumber_eq hshare
  obtain ⟨hsum, hsumFits⟩ := foldlM_gather hadd (pool.childrenOf position).reverse hfits
    fun child hchild => hchildren child (List.mem_reverse.mp hchild)
  rw [List.foldl_reverse] at hsum hsumFits
  have hresult := Except.ok.inj (htotal.symm.trans hsum)
  have htotalNumber : result.totalNumber position = (pool.childrenOf position).foldr
      (fun child sum => sum + result.totalNumber child) share := by
    rw [totalNumber, hresult]
    rfl
  exact ⟨hresult.trans (congrArg Value.num htotalNumber.symm), htotalNumber ▸ hsumFits,
    hnumber ▸ htotalNumber⟩

end Numbers

/-! ## 7. Making a node the root -/

section Roots

variable [Scalar α]

/-- The total of a node is a number, and the sum it should be. -/
structure SumsUp (fits : α → Prop) (pool result : Pool α) (position : Nat) : Prop where
  number : result.total position = .num (result.totalNumber position)
  /-- It is the sum of the share and the children's totals, taken in this order. -/
  sum : result.totalNumber position = (pool.childrenOf position).foldr
    (fun child sum => sum + result.totalNumber child) (pool.shareNumber position)
  /-- Where numbers are added exactly, it is the sum of the shares in the subtree. -/
  exact : ∀ {M : Type} [AddCommMonoid M] (amount : α → M),
    (∀ x y, fits x → fits y → amount (x + y) = amount x + amount y) →
    ∃ below : List Nat, below.Nodup ∧ (∀ other, other ∈ below ↔ pool.Reaches position other) ∧
      amount (result.totalNumber position) =
        (below.map fun other => amount (pool.shareNumber other)).sum

/-- The shares of all nodes in a tree are numbers of the kind. -/
def SharesFit (fits : α → Prop) (pool : Pool α) (root : Nat) : Prop :=
  ∀ position, pool.Reaches root position →
    ∃ share, pool.share? position = some (.num share) ∧ fits share

namespace IsTree

variable {fits : α → Prop} {result : Pool α} {layout : Layout α}
variable (h : pool.IsTree root) (hresult : pool.rootAt root = .ok (result, layout))
variable (hadd : Addable fits) (hshares : pool.SharesFit fits root)
variable {position : Nat} (hposition : pool.Reaches root position)

include h hresult hadd hshares hposition

/-- Totals are numbers of the kind, from the leaves upwards. -/
theorem fits_totalNumber : result.total position = .num (result.totalNumber position) ∧
    fits (result.totalNumber position) := by
  refine h.bottomUp (fun position hposition hchildren => ?_) hposition
  obtain ⟨hnumber, hfits, -⟩ :=
    (h.addsUp hresult hposition).number hadd (hshares position hposition) hchildren
  exact ⟨hnumber, hfits⟩

/-- The total of a node is the sum of its share and the totals of its children. -/
theorem totalNumber_eq : result.totalNumber position = (pool.childrenOf position).foldr
    (fun child sum => sum + result.totalNumber child) (pool.shareNumber position) := by
  have hchildren : ∀ child ∈ pool.childrenOf position,
      result.total child = .num (result.totalNumber child) ∧ fits (result.totalNumber child) :=
    fun child hchild => h.fits_totalNumber hresult hadd hshares (hposition.child hchild)
  exact ((h.addsUp hresult hposition).number hadd (hshares position hposition) hchildren).2.2

/-- Where numbers are added exactly, it has the amounts of the share and of the children. -/
theorem amount_totalNumber {M : Type} [AddCommMonoid M] {amount : α → M}
    (hamount : ∀ x y, fits x → fits y → amount (x + y) = amount x + amount y) :
    amount (result.totalNumber position) = amount (pool.shareNumber position) +
      ((pool.childrenOf position).map fun child => amount (result.totalNumber child)).sum := by
  obtain ⟨share, hshare, hfits⟩ := hshares position hposition
  rw [h.totalNumber_eq hresult hadd hshares hposition, shareNumber_eq hshare]
  refine (amount_foldr hadd hamount _ hfits fun child hchild => ?_).2
  exact (h.fits_totalNumber hresult hadd hshares (hposition.child hchild)).2

/-- **The totals of a tree of numbers are sums.** -/
theorem sumsUp : pool.SumsUp fits result position := by
  constructor
  · exact (h.fits_totalNumber hresult hadd hshares hposition).1
  · exact h.totalNumber_eq hresult hadd hshares hposition
  · intro M _ amount hamount
    have htree := h.of_reaches hposition
    have hwhole : ∀ label ∈ Tree.labelsAll [pool.treeFrom position],
        amount (result.totalNumber label) = amount (pool.shareNumber label) +
          ((pool.childrenOf label).map fun child => amount (result.totalNumber child)).sum := by
      intro label hlabel
      rw [Tree.labelsAll_cons, Tree.labelsAll_nil, List.append_nil,
        htree.mem_labels_treeFrom] at hlabel
      exact h.amount_totalNumber hresult hadd hshares (hposition.trans hlabel) hamount
    have hsum := sum_labelsAll [pool.treeFrom position]
      (List.forall_mem_singleton.mpr htree.unfolds_treeFrom) hwhole
    rw [Tree.labelsAll_cons, Tree.labelsAll_nil, List.append_nil, List.map_singleton,
      List.map_singleton, List.sum_singleton, treeFrom, label_subtree] at hsum
    exact ⟨(pool.treeFrom position).labels, htree.nodup_treeFrom,
      fun other => htree.mem_labels_treeFrom, hsum⟩

end IsTree

/-- **After `Pool.rootAt` the total of every node in the tree is its share with the totals of its
children added one by one, the last one first, and the total of the tree is that of the root.
Shares stay, unless they are lists that totals are added to.  Where shares are numbers that can be
added it does not fail, and where they are added exactly the total of a node is the sum of the
shares in its subtree.** -/
theorem totals_of_rootAt (h : pool.IsTree root) :
    (∀ result layout, pool.rootAt root = .ok (result, layout) →
      layout.total = result.total root ∧
      ∀ position, pool.Reaches root position → pool.AddsUp result position ∧
        ((∀ items, pool.share? position ≠ some (.list items)) →
          result.share? position = pool.share? position)) ∧
    ∀ fits : α → Prop, Addable fits → pool.SharesFit fits root →
      ∃ result layout, pool.rootAt root = .ok (result, layout) ∧
        ∀ position, pool.Reaches root position → pool.SumsUp fits result position := by
  constructor
  · intro result layout hresult
    obtain ⟨hadded, hlayout⟩ := rootAt_eq_ok.mp hresult
    refine ⟨hlayout ▸ rfl, fun position hposition => ⟨h.addsUp hresult hposition, fun hshare => ?_⟩⟩
    rw [← h.mirrors_roundFrom.shares] at hshare ⊢
    exact share?_addUp hshare hadded
  · intro fits hadd hshares
    obtain ⟨result, layout, hresult⟩ := h.exists_rootAt ⟨fits, hadd, hshares⟩
    exact ⟨result, layout, hresult, fun position hposition =>
      h.sumsUp hresult hadd hshares hposition⟩

/-- A tree of five nodes, two of them below a node that has places from another tree. -/
def stalePool : Pool Number :=
  #[fresh (.int 1) [3, 1], fresh (.int 2) [], ⟨.int 4, [], ⟨some 1, 1, some 1, .int 9⟩⟩,
    ⟨.int 8, [4, 2], ⟨some 0, 0, none, .int 7⟩⟩, fresh (.int 16) []]

theorem totals_of_rootAt_stalePool : stalePool.IsTree 0 ∧
    ∃ result layout, stalePool.rootAt 0 = .ok (result, layout) ∧
      result.total 0 = .num (.int 31) ∧ result.total 3 = .num (.int 28) ∧
      ∃ below : List Nat, below.Nodup ∧ (∀ other, other ∈ below ↔ stalePool.Reaches 3 other) ∧
        28 = (below.map fun other => (Scalar.whole? (stalePool.shareNumber other)).getD 0).sum := by
  have htree : stalePool.IsTree 0 := by decide +kernel
  have hadd : Addable fun x : Number => ∃ n, x = .int n := combineFault_int
  have hlabels : (stalePool.treeFrom 0).labels = [0, 3, 4, 2, 1] := by decide +kernel
  have hshares : ∀ position, stalePool.Reaches 0 position →
      ∃ share, stalePool.share? position = some (.num share) ∧ ∃ n, share = .int n := by
    intro position hposition
    rw [← htree.mem_labels_treeFrom, hlabels] at hposition
    simp only [List.mem_cons, List.not_mem_nil, or_false] at hposition
    rcases hposition with rfl | rfl | rfl | rfl | rfl <;> exact ⟨_, rfl, _, rfl⟩
  obtain ⟨result, layout, hresult, hsums⟩ := (totals_of_rootAt htree).2 _ hadd hshares
  have hreached : ∀ position ∈ [0, 3, 4, 2, 1], stalePool.SumsUp _ result position :=
    fun position hposition =>
      hsums position (htree.mem_labels_treeFrom.mp (hlabels ▸ hposition))
  have hleaf : ∀ position ∈ [4, 2, 1], result.totalNumber position =
      stalePool.shareNumber position := by
    intro position hposition
    rw [(hreached position (List.mem_cons_of_mem _ (List.mem_cons_of_mem _ hposition))).sum]
    simp only [List.mem_cons, List.not_mem_nil, or_false] at hposition
    rcases hposition with rfl | rfl | rfl <;> rfl
  have hinner : result.totalNumber 3 = .int 28 := by
    rw [(hreached 3 (by decide)).sum]
    show (stalePool.shareNumber 3 + result.totalNumber 2) + result.totalNumber 4 = _
    rw [hleaf 2 (by decide), hleaf 4 (by decide)]
    rfl
  have hroot : result.totalNumber 0 = .int 31 := by
    rw [(hreached 0 (by decide)).sum]
    show (stalePool.shareNumber 0 + result.totalNumber 1) + result.totalNumber 3 = _
    rw [hleaf 1 (by decide), hinner]
    rfl
  refine ⟨htree, result, layout, hresult, ?_, ?_, ?_⟩
  · rw [(hreached 0 (by decide)).number, hroot]
  · rw [(hreached 3 (by decide)).number, hinner]
  · have hexact := (hreached 3 (by decide)).exact (fun x => (Scalar.whole? x).getD 0) (by
      rintro _ _ ⟨m, rfl⟩ ⟨n, rfl⟩
      rfl)
    rwa [hinner] at hexact

end Roots
end Pool
end SampledProfile
