/-
# The places that nodes of a pool are given

`Pool.rootAt` goes through a tree with a stack, on which only nodes wait that have children.  What
waits below a node that was met is done before what waits below the nodes before it, so the round
follows the structure of the tree (`Round.traverse_eq_belowAll`), as laying out an arena does
(`Tree.placeAll`).

The two go side by side (`Round.Mirrors`): what was met are the labels of the arena, and each node
met has the place of its slot.  No node is met twice in a tree, so no place is given twice.  What is
known of arenas then holds of pools.

* **After `Pool.rootAt` the nodes of a tree have their places, whatever places they had before**
  (`Pool.isArena_of_rootAt`), and `Pool.rootAt` fails only where shares cannot be added.
-/
import SampledProfile.Proofs.Arena.Layout
import SampledProfile.Proofs.Outcome
import SampledProfile.Proofs.Pool.Ways

namespace SampledProfile

/-! ## 1. The stack and the tree -/

namespace Round

variable {α : Type}

mutual

/-- Meets what is below a node, the children first. -/
def below : Tree Nat → Round α → Round α
  | .node position children, round =>
    belowAll children (meetChildren (.node position children) round)

/-- Meets what is below some neighbours, from the last to the first. -/
def belowAll : List (Tree Nat) → Round α → Round α
  | [], round => round
  | tree :: rest, round => below tree (belowAll rest round)

end

/-- What waits for the children of a node is done before the rest of the stack. -/
theorem traverse_waiting (trees : List (Tree Nat)) : ∀ (stack : List (Tree Nat)) (round : Round α),
    traverse (waiting trees ++ stack) round = traverse stack (belowAll trees round) := by
  induction trees using Tree.forest_induction with
  | nil => exact fun _ _ => rfl
  | cons label children rest ihb ihr =>
    intro stack round
    cases children with
    | nil => exact ihr stack round
    | cons child others =>
      have hwaiting : waiting (.node label (child :: others) :: rest) ++ stack =
          waiting rest ++ (.node label (child :: others) :: stack) := by
        simp [waiting]
      rw [hwaiting, ihr, traverse]
      exact ihb stack _

/-- **The stack goes through the tree from the last child to the first.** -/
theorem traverse_eq_belowAll (tree : Tree Nat) (round : Round α) :
    traverse [tree] round = belowAll [tree] round := by
  obtain ⟨label, children⟩ := tree
  rw [traverse, traverse_waiting, traverse]
  rfl

end Round

/-! ## 2. Where nodes stand -/

namespace Pool

variable {α : Type}

/-- What a node has but for its share and its total. -/
structure Standing where
  children : List Nat
  index : Option Nat
  depth : Nat
  parent : Option Nat

/-- The share of the node at a position. -/
def share? (pool : Pool α) (position : Nat) : Option (Value α) := pool[position]?.map PoolNode.self

/-- How the node at a position stands. -/
def standing (pool : Pool α) (position : Nat) : Option Standing :=
  pool[position]?.map fun node =>
    ⟨node.children, node.place.index, node.place.depth, node.place.parent⟩

/-- The index of a node in the arena, once it has one. -/
def indexOf? (pool : Pool α) (position : Nat) : Option Nat :=
  pool[position]?.bind fun node => node.place.index

/-- The parent of a node, if it has one. -/
def parentOf? (pool : Pool α) (position : Nat) : Option Nat :=
  pool[position]?.bind fun node => node.place.parent

section Standing

variable (pool : Pool α) (position : Nat)

theorem childrenOf_eq : pool.childrenOf position =
    ((pool.standing position).map Standing.children).getD [] := by
  unfold childrenOf standing
  cases pool[position]? <;> rfl

theorem indexOf?_eq : pool.indexOf? position = (pool.standing position).bind Standing.index := by
  unfold indexOf? standing
  cases pool[position]? <;> rfl

theorem depth_eq : pool.depth position =
    ((pool.standing position).map Standing.depth).getD 0 := by
  unfold depth standing
  cases pool[position]? <;> rfl

theorem parentOf?_eq : pool.parentOf? position =
    (pool.standing position).bind Standing.parent := by
  unfold parentOf? standing
  cases pool[position]? <;> rfl

end Standing

/-- A change of a node that leaves it where it stands. -/
theorem standing_modify (pool : Pool α) (position : Nat) {change : PoolNode α → PoolNode α}
    (h : ∀ node, (change node).children = node.children ∧
      (change node).place.index = node.place.index ∧ (change node).place.depth = node.place.depth ∧
      (change node).place.parent = node.place.parent) :
    standing (pool.modify position change) = pool.standing := by
  funext other
  rw [standing, standing, Array.getElem?_modify]
  split
  · cases pool[other]? <;> simp [h]
  · rfl

/-- Another place for one node. -/
theorem standing_put (pool : Pool α) (position : Nat) (index : Option Nat) (depth : Nat)
    (parent : Option Nat) (other : Nat) :
    (pool.put position fun place => { place with index, depth, parent }).standing other =
      if position = other then
        (pool.standing other).map fun stand => ⟨stand.children, index, depth, parent⟩
      else pool.standing other := by
  rw [standing, put, Array.getElem?_modify, standing]
  split
  · cases pool[other]? <;> rfl
  · rfl

theorem share?_put (pool : Pool α) (position : Nat) (change : TreePlace α → TreePlace α) :
    (pool.put position change).share? = pool.share? := by
  funext other
  rw [share?, put, Array.getElem?_modify, share?]
  split
  · cases pool[other]? <;> rfl
  · rfl

/-- Nodes of the pool stand somewhere. -/
theorem exists_standing {pool : Pool α} {position : Nat} (h : position < pool.size) :
    ∃ stand, pool.standing position = some stand ∧
      stand.children = pool.childrenOf position := by
  rw [standing, childrenOf, Array.getElem?_eq_getElem h]
  exact ⟨_, rfl, rfl⟩

end Pool

/-! ## 3. Rounds and arenas -/

namespace Round

open Arena SampledProfile.Tree

variable {α γ : Type} {given : Pool α} {arena : Arena Nat γ} {round : Round α}

/-- The nodes met are those of the arena, in its order, and each stands as its slot does.  All other
nodes stand where they stood, and nothing is done to shares. -/
structure Mirrors (given : Pool α) (arena : Arena Nat γ) (round : Round α) : Prop where
  met : round.met.toList = arena.labels
  deepest : round.deepest = arena.maxDepth
  standing : ∀ index label, arena.labels[index]? = some label →
    round.pool.standing label = some ⟨given.childrenOf label, some index, arena.depth index,
      (arena.parent? index).bind fun above => arena.labels[above]?⟩
  others : ∀ position, position ∉ arena.labels →
    round.pool.standing position = given.standing position
  shares : round.pool.share? = given.share?

theorem mirrors_start (share : Nat → γ) {root : Nat} (hroot : root < given.size) :
    Mirrors given (rootSlot share root) (start given root) := by
  refine ⟨rfl, rfl, fun index label hlabel => ?_, fun position hposition => ?_,
    Pool.share?_put _ _ _⟩
  · obtain ⟨rfl, rfl⟩ : index = 0 ∧ label = root := by
      cases index with
      | zero => exact ⟨rfl, (Option.some.inj hlabel).symm⟩
      | succ index => cases hlabel
    obtain ⟨stand, hstand, hchildren⟩ := Pool.exists_standing hroot
    rw [start, Pool.standing_put, if_pos rfl, hstand, Option.map_some, hchildren]
    rfl
  · have hne : root ≠ position := fun heq => hposition (heq ▸ List.mem_singleton_self _)
    rw [start, Pool.standing_put, if_neg hne]

/-- A slot at the end is deepest, or it is not. -/
theorem maxDepth_append (arena : Arena Nat γ) (slot : Slot Nat γ) :
    Arena.maxDepth (arena ++ [slot]) = max arena.maxDepth slot.depth := by
  rw [Arena.maxDepth, Arena.maxDepth, ← Array.foldl_toList, ← Array.foldl_toList,
    Array.toList_appendList, List.foldl_append]
  rfl

/-- A node that is met for the first time stands as a new slot does. -/
theorem Mirrors.meet (h : Mirrors given arena round) (hwell : arena.WellPlaced) (share : Nat → γ)
    {above parent depth : Nat} {child : Tree Nat} (habove : arena.labels[above]? = some parent)
    (hnew : child.label ∉ arena.labels) (hvalid : child.label < given.size) :
    Mirrors given (arena ++ slotsOf share above depth [child]) (round.meet parent depth child) := by
  have hlength : arena.labels.length = arena.size := by simp [Arena.labels]
  have hsize : round.met.size = arena.size := by
    rw [← hlength, ← h.met, Array.length_toList]
  have hlabels := labels_append arena (slotsOf share above depth [child])
  have hextends := extends_append arena (slotsOf share above depth [child])
  have hlast : (arena ++ slotsOf share above depth [child])[arena.size]? =
      some ⟨child.label, depth, some above, share child.label⟩ := by
    rw [getElem?_append_list, if_neg (Nat.lt_irrefl _), Nat.sub_self]
    rfl
  have hdeepest : Arena.maxDepth (arena ++ slotsOf share above depth [child]) =
      max arena.maxDepth depth := maxDepth_append arena _
  generalize arena ++ slotsOf share above depth [child] = next
    at hlabels hextends hlast hdeepest ⊢
  have hparents : ∀ index < arena.size, Arena.parent? next index = arena.parent? index :=
    fun index hindex => by rw [Arena.parent?, hextends.2 index hindex, Arena.parent?]
  refine ⟨?_, ?_, fun index label hlabel => ?_, fun position hposition => ?_,
    (Pool.share?_put _ _ _).trans h.shares⟩
  · rw [hlabels, ← h.met]
    exact Array.toList_push
  · rw [← h.deepest] at hdeepest
    exact hdeepest.symm
  · rw [Round.meet, Pool.standing_put]
    rw [hlabels, List.getElem?_append] at hlabel
    split at hlabel
    · rename_i hindex
      rw [hlength] at hindex
      have hne : child.label ≠ label := fun heq => hnew (heq ▸ List.mem_of_getElem? hlabel)
      rw [if_neg hne, h.standing index label hlabel, hextends.depth_eq hindex,
        hparents index hindex]
      cases hparent : arena.parent? index with
      | none => rfl
      | some higher =>
        have hlt : higher < arena.size := (hwell.lt_of_parent hindex hparent).trans hindex
        rw [Option.bind_some, Option.bind_some, hextends.label_eq hlt]
    · rename_i hindex
      obtain ⟨hzero, rfl⟩ : index - arena.labels.length = 0 ∧ child.label = label := by
        rw [slotsOf, List.map_map, List.map_singleton, List.getElem?_singleton] at hlabel
        split at hlabel
        · exact ⟨‹_›, Option.some.inj hlabel⟩
        · cases hlabel
      obtain rfl : index = arena.size := by omega
      obtain ⟨stand, hstand, hchildren⟩ := Pool.exists_standing hvalid
      have hbound := lt_size_of_label habove
      rw [if_pos rfl, h.others _ hnew, hstand, Option.map_some, hchildren, hsize, Arena.depth,
        Arena.parent?, hlast, Option.bind_some, Option.bind_some, hextends.label_eq hbound, habove]
      rfl
  · rw [hlabels, List.mem_append, not_or] at hposition
    have hne : child.label ≠ position := fun heq =>
      hposition.2 (by simp [slotsOf, heq])
    rw [Round.meet, Pool.standing_put, if_neg hne]
    exact h.others position hposition.1

/-- All children of a node are met, each for the first time. -/
theorem Mirrors.meetAll (share : Nat → γ) {above parent depth : Nat} (trees : List (Tree Nat)) :
    ∀ {arena : Arena Nat γ} {round : Round α}, Mirrors given arena round → arena.WellPlaced →
      arena.labels[above]? = some parent → depth = arena.depth above + 1 →
      (arena.labels ++ trees.map Tree.label).Nodup → (∀ tree ∈ trees, tree.label < given.size) →
      Mirrors given (arena ++ slotsOf share above depth trees)
        (trees.foldl (Round.meet parent depth) round) := by
  induction trees with
  | nil =>
    intro arena round h _ _ _ _ _
    simpa [slotsOf] using h
  | cons tree rest ih =>
    intro arena round h hwell habove hdepth hnodup hvalid
    have hbound := lt_size_of_label habove
    have hsplit : arena ++ slotsOf share above depth (tree :: rest) =
        (arena ++ slotsOf share above depth [tree]) ++ slotsOf share above depth rest := by
      simp [slotsOf]
    obtain ⟨htree, hrest⟩ := List.forall_mem_cons.mp hvalid
    have hnew : tree.label ∉ arena.labels := fun hmem =>
      (List.nodup_append.mp hnodup).2.2 _ hmem _ List.mem_cons_self rfl
    have hextends := extends_append arena (slotsOf share above depth [tree])
    rw [hsplit, List.foldl_cons]
    refine ih (h.meet hwell share habove hnew htree) ?_ ?_ ?_ ?_ hrest
    · rw [hdepth]
      exact wellPlaced_slotsOf share hwell hbound [tree]
    · rw [hextends.label_eq hbound, habove]
    · rw [hextends.depth_eq hbound, hdepth]
    · rw [labels_append]
      rwa [List.map_cons, List.append_cons] at hnodup

/-- **The round meets what is below some nodes as the arena takes it up.** -/
theorem Mirrors.belowAll (share : Nat → γ) (trees : List (Tree Nat)) :
    ∀ {position depth : Nat} {arena : Arena Nat γ} {round : Round α}, Mirrors given arena round →
      arena.WellPlaced → Rooted trees position depth arena →
      (arena.labels ++ trees.flatMap fun tree => labelsAll tree.children).Nodup →
      (∀ tree ∈ trees, ∀ label ∈ labelsAll tree.children, label < given.size) →
      Mirrors given (placeAll share trees position depth arena) (belowAll trees round) := by
  induction trees using forest_induction with
  | nil => exact fun h _ _ _ _ => h
  | cons label below rest ihb ihr =>
    intro position depth arena round h hwell hroots hnodup hvalid
    obtain ⟨hbelow, hrest⟩ := List.forall_mem_cons.mp hvalid
    obtain ⟨hp, hdepth⟩ : position < arena.size ∧ arena.depth position = depth :=
      hroots.stand 0 (Nat.zero_lt_succ _)
    have hlabel : arena.labels[position]? = some label := hroots.labels 0 (Nat.zero_lt_succ _)
    rw [List.flatMap_cons, children_node] at hnodup
    -- what is below the nodes beside this one comes first
    have hrestNodup : (arena.labels ++ rest.flatMap fun tree => labelsAll tree.children).Nodup :=
      hnodup.sublist ((List.sublist_append_right _ _).append_left _)
    have hmirrors := ihr h hwell hroots.tail hrestNodup hrest
    obtain ⟨hlaidWell, hextends⟩ := wellPlaced_placeAll share rest hwell hroots.tail.stand
    have hlabels : (placeAll share rest (position + 1) depth arena).labels.Perm
        (arena.labels ++ rest.flatMap fun tree => labelsAll tree.children) :=
      labels_placeAll share rest
    rw [placeAll_cons]
    generalize placeAll share rest (position + 1) depth arena = laid at *
    have hlt : position < laid.size := Nat.lt_of_lt_of_le hp hextends.1
    have hlaidLabel : laid.labels[position]? = some label := by
      rw [hextends.label_eq hp, hlabel]
    have hlaidDepth : laid.depth position = depth := by rw [hextends.depth_eq hp, hdepth]
    -- then the node meets its children, and what is below them
    have hall : (laid.labels ++ (below.map Tree.label ++
        below.flatMap fun tree => labelsAll tree.children)).Nodup := by
      refine (List.Perm.nodup_iff ?_).mp hnodup
      refine List.Perm.trans ?_ (hlabels.symm.append (labelsAll_perm_below below))
      rw [List.append_assoc]
      exact List.perm_append_comm.append_left _
    rw [← List.append_assoc] at hall
    have hmet := hmirrors.meetAll share below hlaidWell hlaidLabel
      (congrArg (· + 1) hlaidDepth.symm) (List.nodup_append.mp hall).1 fun tree htree =>
        hbelow _ ((labelsAll_perm_below below).mem_iff.mpr
          (List.mem_append_left _ (List.mem_map_of_mem htree)))
    have hround : (Round.belowAll rest round).pool.depth label + 1 = depth + 1 := by
      rw [Pool.depth_eq, hmirrors.standing position label hlaidLabel]
      exact congrArg (· + 1) hlaidDepth
    rw [Round.belowAll, Round.below, meetChildren, children_node, label_node, hround]
    refine ihb hmet ?_ (rooted_slotsOf share hlaidWell hlt below) ?_ fun tree htree other hother => ?_
    · rw [← hlaidDepth]
      exact wellPlaced_slotsOf share hlaidWell hlt below
    · rw [labels_append, slotsOf, List.map_map]
      exact hall
    · refine hbelow _ ((labelsAll_perm_below below).mem_iff.mpr (List.mem_append_right _ ?_))
      exact List.mem_flatMap.mpr ⟨tree, htree, hother⟩

/-- **A round through a tree of different nodes mirrors the arena of the tree.** -/
theorem mirrors_traverse (share : Nat → γ) {tree : Tree Nat} (hnodup : tree.labels.Nodup)
    (hvalid : ∀ label ∈ tree.labels, label < given.size) :
    Mirrors given (tree.placed share) (traverse [tree] (start given tree.label)) := by
  obtain ⟨label, below⟩ := tree
  rw [labels_node] at hnodup hvalid
  rw [traverse_eq_belowAll]
  refine (mirrors_start share (hvalid label List.mem_cons_self)).belowAll share _
    (wellPlaced_rootSlot share label) (rooted_rootSlot share _) ?_ fun tree htree other hother => ?_
  · simpa [rootSlot, Arena.labels] using hnodup
  · obtain rfl := List.mem_singleton.mp htree
    exact hvalid other (List.mem_cons_of_mem _ hother)

end Round
end SampledProfile
