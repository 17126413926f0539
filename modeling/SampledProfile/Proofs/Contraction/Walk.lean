/-
# What the walk goes over

The walk takes one position after the other, so what it did is known only at its end.  If it comes
to an end without a fault there is a forest of source nodes (`SourceNode`) behind it: the trees
that the lists of children describe from the given positions on.  `Contraction.walk` has then

* given the owner what the forest contracts to (`grown`);
* noted for every node of the forest, in the order of the walk, the node that stands for it
  (`entries`), and no node twice (`Tracks`).

`forest_of_walk` says so for every walk, by induction on the fuel.  `walk_cons_eq_ok_iff` is the
one step, and the only place that looks into the definition of the walk.
-/
import SampledProfile.Contraction
import SampledProfile.Proofs.Contraction.Nearest
import SampledProfile.Proofs.NodeTable.Index

namespace SampledProfile

/-- What the walk reads of a node. -/
structure SourceNode (α : Type) where
  position : Nat
  key : Key
  call : Call α
  /-- Is the node dropped? -/
  elided : Bool
  /-- The positions of its children. -/
  below : List Nat

namespace Contraction

open Outcome NodeTable SampledProfile.Tree

variable {α : Type} [Scalar α]

/-! ## 1. One step -/

/-- Is a node other than the root dropped? -/
def isElided (keepNatives : Bool) (node : Fields α) : Except Fault Bool :=
  if keepNatives then .ok false else Frame.isNative node

/-- Reads the node at a position. -/
def read (table : NodeTable α) (sampleTime : α) (keepNatives : Bool) (position : Nat) :
    Except Fault (SourceNode α) := do
  let node := table.nodeAt position
  let id := node.get "id"
  let key ← id.key
  let call ← Call.ofFields sampleTime node
  let elided ← isElided keepNatives node
  let below ← childPositions table node id
  return ⟨position, key, call, elided, below⟩

/-- Reads the node at a position, which must not have been met before. -/
def meet (table : NodeTable α) (sampleTime : α) (keepNatives : Bool) (trail : Trail α)
    (position : Nat) : Except Fault (SourceNode α) := do
  let node := table.nodeAt position
  let id := node.get "id"
  let key ← id.key
  if (key.lookup trail).isSome then throw (.malformed (.reachableTwice id.text))
  let call ← Call.ofFields sampleTime node
  let elided ← isElided keepNatives node
  let below ← childPositions table node id
  return ⟨position, key, call, elided, below⟩

section Step

variable {table : NodeTable α} {sampleTime : α} {keepNatives : Bool}

theorem read_eq_ok_iff {position : Nat} {node : SourceNode α} :
    read table sampleTime keepNatives position = .ok node ↔
      node.position = position ∧ (idIn table.nodes position).key = .ok node.key ∧
      Call.ofFields sampleTime (nodeIn table.nodes position) = .ok node.call ∧
      isElided keepNatives (nodeIn table.nodes position) = .ok node.elided ∧
      childPositions table (nodeIn table.nodes position) (idIn table.nodes position) =
        .ok node.below := by
  simp only [read, bind_eq_ok, pure_eq_ok, nodeAt_eq, idIn]
  constructor
  · rintro ⟨key, hkey, call, hcall, elided, helided, below, hbelow, rfl⟩
    exact ⟨rfl, hkey, hcall, helided, hbelow⟩
  · rintro ⟨rfl, hkey, hcall, helided, hbelow⟩
    exact ⟨_, hkey, _, hcall, _, helided, _, hbelow, rfl⟩

theorem meet_eq_ok_iff {trail : Trail α} {position : Nat} {node : SourceNode α} :
    meet table sampleTime keepNatives trail position = .ok node ↔
      read table sampleTime keepNatives position = .ok node ∧
        node.key ∉ trail.map Prod.fst := by
  rw [read_eq_ok_iff]
  simp only [meet, bind_eq_ok, check_eq_ok, pure_eq_ok, nodeAt_eq, idIn, Key.isSome_lookup_iff]
  constructor
  · rintro ⟨key, hkey, hfresh, call, hcall, elided, helided, below, hbelow, rfl⟩
    exact ⟨⟨rfl, hkey, hcall, helided, hbelow⟩, hfresh⟩
  · rintro ⟨⟨rfl, hkey, hcall, helided, hbelow⟩, hfresh⟩
    exact ⟨_, hkey, hfresh, _, hcall, _, helided, _, hbelow, rfl⟩

/-- The walk reads a node and goes on below it, within the owner if the node is dropped. -/
theorem walk_cons (fuel position : Nat) (rest : List Nat) (owner : CallTree α) (trail : Trail α) :
    walk table sampleTime keepNatives (fuel + 1) (position :: rest) owner trail =
      meet table sampleTime keepNatives trail position >>= fun node =>
        if node.elided then
          walk table sampleTime keepNatives fuel (node.below.reverse ++ rest)
            (owner.relabel (·.absorb node.call.self)) ((node.key, owner.label.id) :: trail)
        else
          walk table sampleTime keepNatives fuel node.below.reverse
            (.leaf node.call) ((node.key, node.call.id) :: trail) >>= fun inner =>
              walk table sampleTime keepNatives fuel rest (owner.attach inner.1) inner.2 := by
  simp only [walk, meet, bind_assoc]
  refine bind_congr fun key => ?_
  by_cases hmet : (key.lookup trail).isSome
  · simp only [hmet, if_true]
    rfl
  · simp only [hmet, Bool.false_eq_true, if_false, bind_assoc, pure_bind]
    refine bind_congr fun call => ?_
    cases keepNatives <;> simp [isElided]

/-- The step, for walks that come to an end without a fault. -/
theorem walk_cons_eq_ok_iff {fuel position : Nat} {rest : List Nat} {owner : CallTree α}
    {trail : Trail α} {result : CallTree α × Trail α} :
    walk table sampleTime keepNatives (fuel + 1) (position :: rest) owner trail = .ok result ↔
      ∃ node, read table sampleTime keepNatives position = .ok node ∧
        node.key ∉ trail.map Prod.fst ∧
        if node.elided then
          walk table sampleTime keepNatives fuel (node.below.reverse ++ rest)
            (owner.relabel (·.absorb node.call.self)) ((node.key, owner.label.id) :: trail) =
              .ok result
        else
          ∃ inner, walk table sampleTime keepNatives fuel node.below.reverse
              (.leaf node.call) ((node.key, node.call.id) :: trail) = .ok inner ∧
            walk table sampleTime keepNatives fuel rest (owner.attach inner.1) inner.2 =
              .ok result := by
  rw [walk_cons, bind_eq_ok]
  refine exists_congr fun node => ?_
  rw [meet_eq_ok_iff, and_assoc]
  refine and_congr_right fun _ => and_congr_right fun _ => ?_
  split
  · rfl
  · rw [bind_eq_ok]

end Step

/-! ## 2. What has been met -/

/-- No node was met twice, and nothing but nodes of the table was. -/
structure Tracks (table : NodeTable α) (trail : Trail α) : Prop where
  nodup : (trail.map Prod.fst).Nodup
  known : ∀ key ∈ trail.map Prod.fst, key ∈ table.names.map Prod.fst

namespace Tracks

variable {table : NodeTable α} {trail : Trail α}

/-- Not more nodes were met than there are. -/
theorem length_le (h : Tracks table trail) (hi : table.Indexed) :
    trail.length ≤ table.nodes.length := by
  have hsub := (List.subperm_of_subset h.nodup h.known).length_le
  rwa [List.length_map, List.length_map, hi.names, List.length_map, List.length_range] at hsub

omit [Scalar α] in
theorem cons (h : Tracks table trail) {key : Key} (hfresh : key ∉ trail.map Prod.fst)
    (hknown : key ∈ table.names.map Prod.fst) (id : Value α) :
    Tracks table ((key, id) :: trail) :=
  ⟨List.nodup_cons.mpr ⟨hfresh, h.nodup⟩, List.forall_mem_cons.mpr ⟨hknown, h.known⟩⟩

end Tracks

/-- The key of a position is a name of the table. -/
theorem key_mem_names {table : NodeTable α} (hi : table.Indexed) {position : Nat}
    (hp : position < table.nodes.length) {key : Key}
    (hkey : (idIn table.nodes position).key = .ok key) :
    key = keyIn table.nodes position ∧ key ∈ table.names.map Prod.fst := by
  have heq : key = keyIn table.nodes position := by
    rw [hi.key position hp] at hkey
    exact (Except.ok.inj hkey).symm
  exact ⟨heq, List.mem_map.mpr ⟨_, hi.mem_names_iff.mpr ⟨hp, heq.symm⟩, rfl⟩⟩

/-- The positions of children are positions of the table. -/
theorem childPositions_lt {table : NodeTable α} (hi : table.Indexed) {node : Fields α}
    {id : Value α} {below : List Nat} (h : childPositions table node id = .ok below) :
    ∀ position ∈ below, position < table.nodes.length := by
  obtain ⟨ids, -, hfind⟩ := bind_eq_ok.mp h
  intro position hp
  obtain ⟨child, -, hchild⟩ := mem_of_mapM hfind hp
  exact (hi.find_eq_ok_iff.mp hchild).1

/-! ## 3. The forest behind a walk -/

/-- A call with the time of the dropped ones among some nodes, added one after another. -/
def absorbAll (call : Call α) (nodes : List (SourceNode α)) : Call α :=
  (nodes.filter (·.elided)).foldl (fun call node => call.absorb node.call.self) call

/-- An owner with what a forest contracts to. -/
def grown (owner : CallTree α) (forest : List (Tree (SourceNode α))) : CallTree α :=
  .node (absorbAll owner.label (surfaceAll (·.elided) forest))
    (owner.children ++
      mapAll (fun pair => absorbAll pair.1.call pair.2) (contractAll (·.elided) forest))

/-- What a walk over a forest notes, one entry after another. -/
def entries (above : SourceNode α) (forest : List (Tree (SourceNode α))) : Trail α :=
  (standAll (·.elided) above forest).map fun pair => (pair.1.key, pair.2.call.id)

/-- Every node of a forest is what is read at its position, and its children are those it lists. -/
def Unfolds (table : NodeTable α) (sampleTime : α) (keepNatives : Bool)
    (forest : List (Tree (SourceNode α))) : Prop :=
  ∀ node below, .node node below ∈ subtreesAll forest →
    read table sampleTime keepNatives node.position = .ok node ∧
      node.below = below.map (·.label.position)

theorem unfolds_append {table : NodeTable α} {sampleTime : α} {keepNatives : Bool}
    {forest others : List (Tree (SourceNode α))} :
    Unfolds table sampleTime keepNatives (forest ++ others) ↔
      Unfolds table sampleTime keepNatives forest ∧
        Unfolds table sampleTime keepNatives others := by
  simp only [Unfolds, subtreesAll_append, List.mem_append]
  constructor
  · exact fun h => ⟨fun node below hmem => h node below (.inl hmem),
      fun node below hmem => h node below (.inr hmem)⟩
  · exact fun h node below hmem => hmem.elim (h.1 node below) (h.2 node below)

theorem unfolds_node {table : NodeTable α} {sampleTime : α} {keepNatives : Bool}
    {node : SourceNode α} {below : List (Tree (SourceNode α))} :
    Unfolds table sampleTime keepNatives [.node node below] ↔
      (read table sampleTime keepNatives node.position = .ok node ∧
        node.below = below.map (·.label.position)) ∧
      Unfolds table sampleTime keepNatives below := by
  simp only [Unfolds, subtreesAll, subtrees, List.append_nil, List.mem_cons, Tree.node.injEq]
  constructor
  · intro h
    exact ⟨h node below (.inl ⟨rfl, rfl⟩), fun other inner hmem => h other inner (.inr hmem)⟩
  · rintro ⟨h, hbelow⟩ other inner (⟨rfl, rfl⟩ | hmem)
    · exact h
    · exact hbelow other inner hmem

/-- The walk over the positions went over the forest, for an owner that `above` stands for. -/
structure Walked (table : NodeTable α) (sampleTime : α) (keepNatives : Bool) (above : SourceNode α)
    (positions : List Nat) (owner : CallTree α) (trail : Trail α)
    (forest : List (Tree (SourceNode α))) (result : CallTree α × Trail α) : Prop where
  unfolds : Unfolds table sampleTime keepNatives forest
  roots : forest.map (·.label.position) = positions.reverse
  bounds : ∀ node ∈ labelsAll forest, node.position < table.nodes.length
  owner : result.1 = grown owner forest
  trail : result.2 = (entries above forest).reverse ++ trail
  tracks : Tracks table result.2

section Growth

variable (owner : CallTree α) (above node : SourceNode α)
  (forest below : List (Tree (SourceNode α)))

theorem grown_nil : grown owner [] = owner := by
  obtain ⟨call, children⟩ := owner
  simp [grown, surfaceAll, contractAll, mapAll, absorbAll]

/-- A dropped node gives its time to the owner, and what is below it goes there too. -/
theorem grown_of_elided (h : node.elided = true) :
    grown (owner.relabel (·.absorb node.call.self)) (forest ++ below) =
      grown owner (forest ++ [.node node below]) := by
  obtain ⟨call, children⟩ := owner
  simp [grown, surfaceAll_append, contractAll_append, surfaceAll, surface, contractAll, contract,
    absorbAll, h, Tree.relabel]

/-- A kept node goes to the owner with what it has grown to. -/
theorem grown_of_kept (h : node.elided = false) :
    grown (owner.attach (grown (.leaf node.call) below)) forest =
      grown owner (forest ++ [.node node below]) := by
  obtain ⟨call, children⟩ := owner
  simp [grown, surfaceAll_append, contractAll_append, surfaceAll, surface, contractAll, contract,
    absorbAll, h, Tree.attach, Tree.leaf, mapAll, Tree.map]

omit [Scalar α] in
theorem entries_of_elided (h : node.elided = true) :
    entries above (forest ++ [.node node below]) =
      (node.key, above.call.id) :: entries above (forest ++ below) := by
  simp [entries, standAll_append, standAll, stand, h]

omit [Scalar α] in
theorem entries_of_kept (h : node.elided = false) :
    entries above (forest ++ [.node node below]) =
      (node.key, node.call.id) :: (entries node below ++ entries above forest) := by
  simp [entries, standAll_append, standAll, stand, h]

end Growth

section Cases

variable {table : NodeTable α} {sampleTime : α} {keepNatives : Bool} {above node : SourceNode α}
  {rest : List Nat} {owner : CallTree α} {trail : Trail α} {result : CallTree α × Trail α}

omit [Scalar α] in
theorem bounds_append {forest below : List (Tree (SourceNode α))} {bound : Nat}
    (hforest : ∀ other ∈ labelsAll forest, other.position < bound) (hnode : node.position < bound)
    (hbelow : ∀ other ∈ labelsAll below, other.position < bound) :
    ∀ other ∈ labelsAll (forest ++ [.node node below]), other.position < bound := by
  intro other hother
  simp only [labelsAll_append, labelsAll_cons, labelsAll_nil, labels_node, List.append_nil,
    List.mem_append, List.mem_cons] at hother
  rcases hother with hother | rfl | hother
  · exact hforest other hother
  · exact hnode
  · exact hbelow other hother

/-- The children of a dropped node and its neighbours are walked over as one forest. -/
theorem Walked.exists_of_elided {forest : List (Tree (SourceNode α))}
    (hread : read table sampleTime keepNatives node.position = .ok node)
    (hp : node.position < table.nodes.length) (helided : node.elided = true)
    (h : Walked table sampleTime keepNatives above (node.below.reverse ++ rest)
      (owner.relabel (·.absorb node.call.self)) ((node.key, above.call.id) :: trail) forest
      result) :
    ∃ all, Walked table sampleTime keepNatives above (node.position :: rest) owner trail all
      result := by
  have hroots := h.roots
  rw [List.reverse_append, List.reverse_reverse] at hroots
  obtain ⟨others, below, rfl, hothers, hchildren⟩ := List.map_eq_append_iff.mp hroots
  obtain ⟨hu, hv⟩ := unfolds_append.mp h.unfolds
  have hbounds := h.bounds
  rw [labelsAll_append] at hbounds
  refine ⟨others ++ [.node node below], ?_, ?_, ?_, ?_, ?_, h.tracks⟩
  · exact unfolds_append.mpr ⟨hu, unfolds_node.mpr ⟨⟨hread, hchildren.symm⟩, hv⟩⟩
  · simp [hothers]
  · exact bounds_append (fun other hother => hbounds other (List.mem_append_left _ hother)) hp
      fun other hother => hbounds other (List.mem_append_right _ hother)
  · rw [h.owner, grown_of_elided _ _ _ _ helided]
  · rw [h.trail, entries_of_elided _ _ _ _ helided]
    simp

/-- What is below a kept node is walked over on its own, before the neighbours. -/
theorem Walked.of_kept {others below : List (Tree (SourceNode α))} {inner : CallTree α × Trail α}
    (hread : read table sampleTime keepNatives node.position = .ok node)
    (hp : node.position < table.nodes.length) (hkept : node.elided = false)
    (hbelow : Walked table sampleTime keepNatives node node.below.reverse (.leaf node.call)
      ((node.key, node.call.id) :: trail) below inner)
    (hrest : Walked table sampleTime keepNatives above rest (owner.attach inner.1) inner.2 others
      result) :
    Walked table sampleTime keepNatives above (node.position :: rest) owner trail
      (others ++ [.node node below]) result := by
  have hchildren := hbelow.roots
  rw [List.reverse_reverse] at hchildren
  refine ⟨?_, ?_, bounds_append hrest.bounds hp hbelow.bounds, ?_, ?_, hrest.tracks⟩
  · exact unfolds_append.mpr
      ⟨hrest.unfolds, unfolds_node.mpr ⟨⟨hread, hchildren.symm⟩, hbelow.unfolds⟩⟩
  · simp [hrest.roots]
  · rw [hrest.owner, hbelow.owner, grown_of_kept _ _ _ _ hkept]
  · rw [hrest.trail, hbelow.trail, entries_of_kept _ _ _ _ hkept]
    simp

end Cases

/-- **There is a forest behind every walk that comes to an end without a fault.** -/
theorem forest_of_walk {table : NodeTable α} (hi : table.Indexed) {sampleTime : α}
    {keepNatives : Bool} : ∀ (fuel : Nat) (above : SourceNode α) {positions : List Nat}
    {owner : CallTree α} {trail : Trail α} {result : CallTree α × Trail α},
    (∀ position ∈ positions, position < table.nodes.length) → Tracks table trail →
    table.nodes.length < trail.length + fuel → owner.label.id = above.call.id →
    walk table sampleTime keepNatives fuel positions owner trail = .ok result →
      ∃ forest, Walked table sampleTime keepNatives above positions owner trail forest result
  | fuel, above, [], owner, trail, result, _, htracks, _, _, hwalk => by
    obtain rfl : (owner, trail) = result := by
      cases fuel <;> exact Except.ok.inj hwalk
    exact ⟨[], by simp [Unfolds, subtreesAll], rfl, by simp, (grown_nil owner).symm, rfl, htracks⟩
  | 0, _, _ :: _, _, trail, _, _, htracks, hfuel, _, _ => by
    have := htracks.length_le hi
    omega
  | fuel + 1, above, position :: rest, owner, trail, result, hpos, htracks, hfuel, hid, hwalk => by
    obtain ⟨node, hread, hfresh, hstep⟩ := walk_cons_eq_ok_iff.mp hwalk
    obtain ⟨rfl, hkey, -, -, hbelow⟩ := read_eq_ok_iff.mp hread
    obtain ⟨hp, hrest⟩ := List.forall_mem_cons.mp hpos
    have hinner : ∀ child ∈ node.below.reverse, child < table.nodes.length :=
      fun child hchild => childPositions_lt hi hbelow child (List.mem_reverse.mp hchild)
    have hmet := fun id => htracks.cons hfresh (key_mem_names hi hp hkey).2 id
    cases helided : node.elided with
    | true =>
      rw [helided, if_pos rfl, hid] at hstep
      have hlabel : (owner.relabel (·.absorb node.call.self)).label.id = above.call.id := by
        rw [label_relabel]
        exact hid
      obtain ⟨forest, hforest⟩ := forest_of_walk hi fuel above
        (fun child hchild => (List.mem_append.mp hchild).elim (hinner child) (hrest child))
        (hmet _) (by rw [List.length_cons]; omega) hlabel hstep
      exact hforest.exists_of_elided hread hp helided
    | false =>
      rw [helided] at hstep
      obtain ⟨inner, hinnerWalk, hrestWalk⟩ := hstep
      obtain ⟨below, hwalked⟩ := forest_of_walk hi fuel node hinner (hmet _)
        (by rw [List.length_cons]; omega) rfl hinnerWalk
      have hlength : trail.length + 1 ≤ inner.2.length := by
        rw [hwalked.trail, List.length_append, List.length_cons]
        omega
      have hlabel : (owner.attach inner.1).label.id = above.call.id := by rwa [label_attach]
      obtain ⟨others, hothers⟩ :=
        forest_of_walk hi fuel above hrest hwalked.tracks (by omega) hlabel hrestWalk
      exact ⟨_, hwalked.of_kept hread hp helided hothers⟩

end Contraction
end SampledProfile
