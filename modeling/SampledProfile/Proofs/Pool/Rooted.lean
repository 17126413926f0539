/-
# Making a node the root of a tree

* **After `Pool.rootAt` every node of a finite tree has its place, whatever places the nodes of the
  pool had before** (`Pool.isArena_of_rootAt`).  The places are given before totals are added up,
  which changes none of them (`Pool.standing_addUp`).
* `Pool.rootAt` fails only where shares cannot be added: it does not for shares of a kind that can
  (`Pool.exists_addUp`), as all integers are, and all doubles.
-/
import SampledProfile.Numeric.Number
import SampledProfile.Proofs.Pool.Places

namespace SampledProfile

namespace Pool

open Outcome

variable {α : Type} {pool : Pool α} {root : Nat}

/-! ## 1. Totals change no place -/

theorem standing_restart (pool : Pool α) (position : Nat) :
    (pool.restart position).standing = pool.standing :=
  standing_modify pool position fun _ => ⟨rfl, rfl, rfl, rfl⟩

theorem standing_foldl_restart : ∀ (met : List Nat) (pool : Pool α),
    (met.foldl restart pool).standing = pool.standing
  | [], _ => rfl
  | position :: rest, pool =>
    (standing_foldl_restart rest _).trans (standing_restart pool position)

theorem standing_withTotal (pool : Pool α) (position : Nat) (total : Value α) :
    standing (pool.modify position (withTotal total)) = pool.standing := by
  refine standing_modify pool position fun node => ?_
  cases hself : node.self <;> simp [withTotal, hself]

section Totals

variable [Scalar α]

theorem standing_addInto {next : Pool α} {position : Nat} (h : pool.addInto position = .ok next) :
    next.standing = pool.standing := by
  unfold addInto at h
  split at h
  · cases h
    rfl
  · obtain ⟨total, -, h⟩ := bind_eq_ok.mp h
    cases h
    exact standing_withTotal pool _ total

/-- Adding up totals leaves all nodes where they stand. -/
theorem standing_addUp {next : Pool α} {met : List Nat} (h : pool.addUp met = .ok next) :
    next.standing = pool.standing := by
  have hadd : ∀ (met : List Nat) {pool next : Pool α},
      met.foldlM addInto pool = .ok next → next.standing = pool.standing := by
    intro met
    induction met with
    | nil =>
      intro pool next h
      cases h
      rfl
    | cons position rest ih =>
      intro pool next h
      obtain ⟨middle, hmiddle, h⟩ := bind_eq_ok.mp h
      exact (ih h).trans (standing_addInto hmiddle)
  exact (hadd _ h).trans (standing_foldl_restart met pool)

end Totals

/-! ## 2. Trees laid out -/

/-- A tree in a pool laid out flat, and the places that its nodes have in the pool then. -/
structure IsArena (pool : Pool α) (root : Nat) (result : Pool α) (layout : Layout α) : Prop where
  /-- The nodes are all that can be reached from the root, each of them once. -/
  nodup : layout.nodes.Nodup
  mem_iff : ∀ position, position ∈ layout.nodes ↔ pool.Reaches root position
  /-- Every node has the index at which it stands. -/
  index : ∀ index position, layout.nodes[index]? = some position →
    result.indexOf? position = some index
  rootIndex : result.indexOf? root = some 0
  rootDepth : result.depth root = 0
  rootParent : result.parentOf? root = none
  /-- A child names its parent, is one step deeper and comes later. -/
  child : ∀ position ∈ layout.nodes, ∀ child ∈ pool.childrenOf position,
    result.parentOf? child = some position ∧ result.depth child = result.depth position + 1 ∧
      ∃ above below, result.indexOf? position = some above ∧
        result.indexOf? child = some below ∧ above < below
  /-- The children of a node stand side by side in their order. -/
  siblings : ∀ position ∈ layout.nodes, ∃ first, ∀ offset child,
    (pool.childrenOf position)[offset]? = some child →
      result.indexOf? child = some (first + offset)
  /-- The largest depth is that of some node. -/
  deepest : (∃ position ∈ layout.nodes, result.depth position = layout.maxDepth) ∧
    ∀ position ∈ layout.nodes, result.depth position ≤ layout.maxDepth
  /-- Nothing is done to the lists of children. -/
  children : ∀ position, result.childrenOf position = pool.childrenOf position

/-- What mirrors the arena of a tree is laid out. -/
theorem IsTree.isArena (htree : pool.IsTree root) {γ : Type} {share : Nat → γ} {round : Round α}
    (h : round.Mirrors pool ((pool.treeFrom root).placed share)) {result : Pool α}
    (hresult : result.standing = round.pool.standing) (total : Value α) :
    IsArena pool root result ⟨round.met.toList, round.deepest, total⟩ := by
  obtain ⟨hwell, hperm⟩ := Tree.wellPlaced_placed share (pool.treeFrom root)
  have hlaid := Tree.laid_placed share (pool.treeFrom root)
  have hroot := hlaid.label_first
  rw [show (pool.treeFrom root).label = root from label_subtree _ _ _] at hroot
  generalize (pool.treeFrom root).placed share = arena at h hwell hperm hlaid hroot
  have hread : ∀ {index label : Nat}, arena.labels[index]? = some label →
      result.indexOf? label = some index ∧ result.depth label = arena.depth index ∧
        result.parentOf? label = (arena.parent? index).bind fun above => arena.labels[above]? := by
    intro index label hlabel
    rw [indexOf?_eq, depth_eq, parentOf?_eq, hresult, h.standing index label hlabel]
    exact ⟨rfl, rfl, rfl⟩
  -- the children of a node are those of its slot
  have hbelow : ∀ {index position : Nat}, arena.labels[index]? = some position →
      ∃ first, ∀ offset child, (pool.childrenOf position)[offset]? = some child →
        arena.labels[first + offset]? = some child ∧ index < first + offset ∧
          arena.parent? (first + offset) = some index ∧
          arena.depth (first + offset) = arena.depth index + 1 := by
    intro index position hposition
    obtain ⟨below, first, hentry, hchildren, hlabels⟩ := hlaid.exists_first hwell hposition
    obtain rfl : below = pool.childrenOf position := htree.unfolds_treeFrom _ hentry
    refine ⟨first, fun offset child hchild => ?_⟩
    have hoffset := (List.getElem?_eq_some_iff.mp hchild).1
    have hmem : first + offset ∈ arena.children index := by
      rw [hchildren, List.mem_range'_1]
      omega
    have hlt := hwell.lt_of_mem_children hmem
    obtain ⟨hsize, hparent⟩ := Arena.mem_children_iff.mp hmem
    obtain ⟨above, -, habove, hdepth⟩ := hwell.parent _ hsize (by omega)
    obtain rfl := Option.some.inj (hparent.symm.trans habove)
    exact ⟨hlabels offset child hchild, hlt, hparent, hdepth⟩
  have hindex : ∀ position ∈ round.met.toList, ∃ index, arena.labels[index]? = some position :=
    fun position hposition => List.mem_iff_getElem?.mp (h.met ▸ hposition)
  constructor
  case nodup => exact h.met ▸ hperm.nodup_iff.mpr htree.nodup_treeFrom
  case mem_iff =>
    intro position
    rw [h.met, hperm.mem_iff, htree.mem_labels_treeFrom]
  case index => exact fun index position hposition => (hread (h.met ▸ hposition)).1
  case rootIndex => exact (hread hroot).1
  case rootDepth => rw [(hread hroot).2.1, hwell.rootDepth]
  case rootParent => rw [(hread hroot).2.2, hwell.rootParent, Option.bind_none]
  case child =>
    intro position hposition child hchild
    obtain ⟨index, hlabel⟩ := hindex position hposition
    obtain ⟨first, hfirst⟩ := hbelow hlabel
    obtain ⟨offset, hoffset⟩ := List.mem_iff_getElem?.mp hchild
    obtain ⟨hchildLabel, hlt, hparent, hdepth⟩ := hfirst offset child hoffset
    obtain ⟨hown, hownDepth, -⟩ := hread hlabel
    obtain ⟨hchildIndex, hchildDepth, hchildParent⟩ := hread hchildLabel
    refine ⟨?_, by rw [hchildDepth, hownDepth, hdepth], index, _, hown, hchildIndex, hlt⟩
    rw [hchildParent, hparent, Option.bind_some, hlabel]
  case siblings =>
    intro position hposition
    obtain ⟨index, hlabel⟩ := hindex position hposition
    obtain ⟨first, hfirst⟩ := hbelow hlabel
    exact ⟨first, fun offset child hchild => (hread (hfirst offset child hchild).1).1⟩
  case deepest =>
    show (∃ position ∈ round.met.toList, result.depth position = round.deepest) ∧
      ∀ position ∈ round.met.toList, result.depth position ≤ round.deepest
    rw [h.deepest]
    constructor
    · obtain ⟨index, hsize, hdeepest⟩ := hwell.exists_deepest
      obtain ⟨label, hlabel⟩ : ∃ label, arena.labels[index]? = some label := by
        rw [Arena.getElem?_labels, Array.getElem?_eq_getElem hsize]
        exact ⟨_, rfl⟩
      exact ⟨label, h.met ▸ List.mem_of_getElem? hlabel, (hread hlabel).2.1.trans hdeepest⟩
    · intro position hposition
      obtain ⟨index, hlabel⟩ := hindex position hposition
      rw [(hread hlabel).2.1]
      exact Arena.depth_le_maxDepth arena index
  case children =>
    intro position
    rw [childrenOf_eq, hresult]
    by_cases hmem : position ∈ arena.labels
    · obtain ⟨index, hlabel⟩ := List.mem_iff_getElem?.mp hmem
      rw [h.standing index position hlabel]
      rfl
    · rw [h.others position hmem, ← childrenOf_eq]

/-! ## 3. Totals -/

theorem share?_restart (pool : Pool α) (position : Nat) :
    (pool.restart position).share? = pool.share? := by
  funext other
  rw [share?, restart, Array.getElem?_modify, share?]
  split
  · cases pool[other]? <;> rfl
  · rfl

theorem total_restart (pool : Pool α) (position other : Nat) :
    (pool.restart position).total other =
      if position = other then (pool.share? other).getD .null else pool.total other := by
  rw [total, restart, Array.getElem?_modify, share?]
  split
  · cases pool[other]? <;> rfl
  · rfl

/-- Some nodes have totals of a kind. -/
def Totalled (fits : α → Prop) (nodes : List Nat) (pool : Pool α) : Prop :=
  ∀ position ∈ nodes, ∃ total, pool.total position = .num total ∧ fits total

variable {fits : α → Prop} {nodes : List Nat}

/-- Totals start with the shares. -/
theorem totalled_restart : ∀ (rest : List Nat) {pool : Pool α},
    (∀ position ∈ nodes, ∃ share, pool.share? position = some (.num share) ∧ fits share) →
    (∀ position ∈ nodes, position ∈ rest ∨
      ∃ total, pool.total position = .num total ∧ fits total) →
    Totalled fits nodes (rest.foldl restart pool)
  | [], _, _, h => fun position hposition => (h position hposition).resolve_left List.not_mem_nil
  | start :: rest, pool, hshares, h => by
    refine totalled_restart rest (by rwa [share?_restart]) fun position hposition => ?_
    rw [total_restart]
    split
    · obtain ⟨share, hshare, hfits⟩ := hshares position hposition
      exact .inr ⟨share, by rw [hshare]; rfl, hfits⟩
    · rename_i hne
      exact (h position hposition).imp_left fun hmem =>
        (List.mem_cons.mp hmem).resolve_left (Ne.symm hne)

variable [Scalar α]

/-- The shares of all nodes in a tree are numbers of a kind that can be added. -/
def CanBeAdded (pool : Pool α) (root : Nat) : Prop :=
  ∃ fits : α → Prop,
    (∀ x y, fits x → fits y → Scalar.combineFault x y = none ∧ fits (x + y)) ∧
      ∀ position, pool.Reaches root position →
        ∃ share, pool.share? position = some (.num share) ∧ fits share

/-- A total that is added to its parent's is one of the kind. -/
theorem exists_addInto
    (hadd : ∀ x y, fits x → fits y → Scalar.combineFault x y = none ∧ fits (x + y))
    (h : Totalled fits nodes pool) {position : Nat} (hposition : position ∈ nodes)
    (hparent : ∀ above, pool.parentOf? position = some above → above ∈ nodes) :
    ∃ next, pool.addInto position = .ok next ∧ Totalled fits nodes next := by
  unfold addInto
  rw [parentOf?] at hparent
  cases habove : pool[position]?.bind fun node => node.place.parent with
  | none => exact ⟨pool, rfl, h⟩
  | some above =>
    obtain ⟨x, hx, hfitsX⟩ := h above (hparent above habove)
    obtain ⟨y, hy, hfitsY⟩ := h position hposition
    obtain ⟨hfault, hfits⟩ := hadd x y hfitsX hfitsY
    have hgather : gather (pool.total above) (pool.total position) = .ok (.num (x + y)) := by
      rw [hx, hy]
      simp [gather, Value.add, Value.number?, Scalar.add?, hfault, Scalar.guarded, Except.map]
    dsimp only
    rw [hgather]
    refine ⟨_, rfl, fun other hother => ?_⟩
    rw [total, Array.getElem?_modify]
    split
    · rename_i heq
      subst heq
      have hnode : ∃ node, pool[above]? = some node := by
        cases hnode : pool[above]? with
        | none => simp [total, hnode] at hx
        | some node => exact ⟨node, rfl⟩
      obtain ⟨node, hnode⟩ := hnode
      refine ⟨x + y, ?_, hfits⟩
      rw [hnode]
      cases hself : node.self <;> simp [withTotal, hself]
    · exact h other hother

/-- **Totals of a kind that can be added are added up.** -/
theorem exists_addUp
    (hadd : ∀ x y, fits x → fits y → Scalar.combineFault x y = none ∧ fits (x + y))
    (hshares : ∀ position ∈ nodes, ∃ share, pool.share? position = some (.num share) ∧ fits share)
    (hparents : ∀ position ∈ nodes, ∀ above, pool.parentOf? position = some above →
      above ∈ nodes) : ∃ next, pool.addUp nodes = .ok next := by
  have hall : ∀ (rest : List Nat) {pool : Pool α}, rest ⊆ nodes → Totalled fits nodes pool →
      (∀ position ∈ nodes, ∀ above, pool.parentOf? position = some above → above ∈ nodes) →
      ∃ next, rest.foldlM addInto pool = .ok next := by
    intro rest
    induction rest with
    | nil => exact fun _ _ _ => ⟨_, rfl⟩
    | cons position rest ih =>
      intro pool hrest htotals hparents
      obtain ⟨hposition, hrest⟩ := List.cons_subset.mp hrest
      obtain ⟨next, hnext, htotals⟩ :=
        exists_addInto hadd htotals hposition (hparents position hposition)
      obtain ⟨last, hlast⟩ := ih hrest htotals fun other hother above habove => by
        rw [parentOf?_eq, standing_addInto hnext, ← parentOf?_eq] at habove
        exact hparents other hother above habove
      exact ⟨last, bind_eq_ok.mpr ⟨next, hnext, hlast⟩⟩
  refine hall nodes.reverse (List.reverse_subset.mpr (List.Subset.refl _))
    (totalled_restart nodes hshares fun position hposition => .inl hposition) ?_
  intro position hposition above habove
  rw [parentOf?_eq, standing_foldl_restart, ← parentOf?_eq] at habove
  exact hparents position hposition above habove

/-- **After `Pool.rootAt` the tree is laid out, and each of its nodes has its place, whatever places
the nodes of the pool had before.  It fails for no shares of a kind that can be added.** -/
theorem isArena_of_rootAt (h : pool.IsTree root) :
    (∀ result layout, pool.rootAt root = .ok (result, layout) →
      IsArena pool root result layout) ∧
    (pool.CanBeAdded root → ∃ result layout, pool.rootAt root = .ok (result, layout)) := by
  have hmirrors := Round.mirrors_traverse (fun _ => ()) h.nodup_treeFrom
    fun label hlabel => h.valid label (h.mem_labels_treeFrom.mp hlabel)
  rw [show (pool.treeFrom root).label = root from label_subtree _ _ _] at hmirrors
  constructor
  · intro result layout hresult
    obtain ⟨added, hadded, hresult⟩ := bind_eq_ok.mp hresult
    cases hresult
    exact h.isArena hmirrors (standing_addUp hadded) _
  · rintro ⟨fits, hadd, hshares⟩
    obtain ⟨-, hperm⟩ := Tree.wellPlaced_placed (fun _ => ()) (pool.treeFrom root)
    obtain ⟨added, hadded⟩ : ∃ added,
        (Round.traverse [pool.treeFrom root] (Round.start pool root)).pool.addUp
          (Round.traverse [pool.treeFrom root] (Round.start pool root)).met.toList = .ok added := by
      refine exists_addUp hadd (fun position hposition => ?_)
        fun position hposition above habove => ?_
      · rw [hmirrors.met, hperm.mem_iff, h.mem_labels_treeFrom] at hposition
        rw [hmirrors.shares]
        exact hshares position hposition
      · rw [hmirrors.met] at hposition ⊢
        obtain ⟨index, hlabel⟩ := List.mem_iff_getElem?.mp hposition
        rw [parentOf?_eq, hmirrors.standing index position hlabel, Option.bind_some] at habove
        obtain ⟨higher, -, hhigher⟩ := Option.bind_eq_some_iff.mp habove
        exact List.mem_of_getElem? hhigher
    exact ⟨_, _, bind_eq_ok.mpr ⟨added, hadded, rfl⟩⟩

/-- Integers are of a kind that can be added, as their sums are integers again. -/
theorem combineFault_int (x y : Number) (hx : ∃ m, x = .int m) (hy : ∃ n, y = .int n) :
    Scalar.combineFault x y = none ∧ ∃ sum, x + y = .int sum := by
  obtain ⟨m, rfl⟩ := hx
  obtain ⟨n, rfl⟩ := hy
  exact ⟨rfl, m + n, rfl⟩

theorem canBeAdded_of_int {pool : Pool Number} (h : ∀ position, pool.Reaches root position →
    ∃ share, pool.share? position = some (.num (.int share))) : pool.CanBeAdded root := by
  refine ⟨fun x => ∃ n, x = .int n, combineFault_int, fun position hposition => ?_⟩
  obtain ⟨share, hshare⟩ := h position hposition
  exact ⟨_, hshare, share, rfl⟩

/-- A tree of four nodes with places from other trees, and a node above it. -/
def usedPool : Pool Number :=
  #[⟨.int 1, [], ⟨some 7, 3, some 2, .int 9⟩⟩, ⟨.int 2, [3, 0], ⟨some 5, 1, some 4, .int 5⟩⟩,
    ⟨.int 4, [], ⟨some 4, 4, some 2, .null⟩⟩, ⟨.int 8, [2], ⟨none, 0, none, .int 0⟩⟩,
    ⟨.int 16, [1], ⟨some 0, 0, none, .int 7⟩⟩]

theorem isArena_usedPool : usedPool.IsTree 1 ∧ usedPool.CanBeAdded 1 ∧
    ∃ result layout, usedPool.rootAt 1 = .ok (result, layout) ∧
      IsArena usedPool 1 result layout := by
  have htree : usedPool.IsTree 1 := by decide +kernel
  have hshares : ∀ position ∈ (usedPool.treeFrom 1).labels,
      ∃ share, usedPool.share? position = some (.num (.int share)) := by
    have hlabels : (usedPool.treeFrom 1).labels = [1, 3, 2, 0] := by decide +kernel
    rw [hlabels]
    simp [share?, usedPool, Value.int, Scalar.ofInt]
  have hadd : usedPool.CanBeAdded 1 := canBeAdded_of_int fun position hposition =>
    hshares position (htree.mem_labels_treeFrom.mpr hposition)
  obtain ⟨result, layout, hresult⟩ := (isArena_of_rootAt htree).2 hadd
  exact ⟨htree, hadd, result, layout, hresult, (isArena_of_rootAt htree).1 _ _ hresult⟩

end Pool
end SampledProfile
