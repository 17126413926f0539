/-
# The walk always ends

`Contraction.walk` is given as much fuel as there are nodes, and where fuel runs out it stops as if
it were done.  So it has to be shown that fuel never runs out.  `walkWithin` is the same walk under
any bound, and it gives nothing where the bound is reached.

A walk notes a node that it has not met before in every step, or it stops; and a trail without
repetitions is not longer than the table (`Tracks.length_le`).  So as many steps as there are nodes
not yet met suffice (`walkWithin_eq`), be the nodes a tree or not, and so does every larger bound
for the whole way from a list to its result (`ofNodesWithin_eq`).
-/
import SampledProfile.Proofs.Contraction.Source

namespace SampledProfile
namespace Contraction

open Outcome NodeTable

variable {α : Type} [Scalar α]

/-! ## 1. The walk under a bound -/

/-- The walk that gives nothing where it has not ended after so many nodes. -/
def walkWithin (table : NodeTable α) (sampleTime : α) (keepNatives : Bool) :
    Nat → List Nat → CallTree α → Trail α → Option (Except Fault (CallTree α × Trail α))
  | _, [], owner, trail => some (.ok (owner, trail))
  | 0, _ :: _, _, _ => none
  | bound + 1, position :: rest, owner, trail =>
    match meet table sampleTime keepNatives trail position with
    | .error fault => some (.error fault)
    | .ok node =>
      if node.elided then
        walkWithin table sampleTime keepNatives bound (node.below.reverse ++ rest)
          (owner.relabel (·.absorb node.call.self)) ((node.key, owner.label.id) :: trail)
      else
        match walkWithin table sampleTime keepNatives bound node.below.reverse (.leaf node.call)
            ((node.key, node.call.id) :: trail) with
        | none => none
        | some (.error fault) => some (.error fault)
        | some (.ok inner) =>
          walkWithin table sampleTime keepNatives bound rest (owner.attach inner.1) inner.2

/-- **The walk ends within as many steps as there are nodes that it has not met.** -/
theorem walkWithin_eq {table : NodeTable α} (hi : table.Indexed) {sampleTime : α}
    {keepNatives : Bool} : ∀ (fuel bound : Nat) {positions : List Nat} {owner : CallTree α}
    {trail : Trail α}, (∀ position ∈ positions, position < table.nodes.length) →
    Tracks table trail → table.nodes.length < trail.length + fuel → fuel ≤ bound →
    walkWithin table sampleTime keepNatives bound positions owner trail =
      some (walk table sampleTime keepNatives fuel positions owner trail)
  | fuel, bound, [], owner, trail, _, _, _, _ => by
    cases fuel <;> cases bound <;> rfl
  | 0, _, _ :: _, _, trail, _, htracks, hfuel, _ => by
    have := htracks.length_le hi
    omega
  | fuel + 1, 0, _ :: _, _, _, _, _, _, hbound => absurd hbound (Nat.not_succ_le_zero fuel)
  | fuel + 1, bound + 1, position :: rest, owner, trail, hpos, htracks, hfuel, hbound => by
    obtain ⟨hp, hrest⟩ := List.forall_mem_cons.mp hpos
    rw [walkWithin, walk_cons]
    cases hmeet : meet table sampleTime keepNatives trail position with
    | error fault => rfl
    | ok node =>
      obtain ⟨hread, hfresh⟩ := meet_eq_ok_iff.mp hmeet
      obtain ⟨-, hkey, -, -, hbelow⟩ := read_eq_ok_iff.mp hread
      have hinner : ∀ child ∈ node.below.reverse, child < table.nodes.length :=
        fun child hchild => childPositions_lt hi hbelow child (List.mem_reverse.mp hchild)
      have hmet := fun id => htracks.cons hfresh (key_mem_names hi hp hkey).2 id
      have hstep : ∀ id : Value α,
          table.nodes.length < ((node.key, id) :: trail : Trail α).length + fuel := fun id => by
        rw [List.length_cons]
        omega
      show _ = some (if node.elided then _ else _)
      simp only
      cases node.elided with
      | true =>
        exact walkWithin_eq hi fuel bound
          (fun child hchild => (List.mem_append.mp hchild).elim (hinner child) (hrest child))
          (hmet _) (hstep _) (by omega)
      | false =>
        simp only [Bool.false_eq_true, if_false]
        rw [walkWithin_eq hi fuel bound hinner (hmet _) (hstep _) (by omega)]
        cases hwalk : walk table sampleTime keepNatives fuel node.below.reverse (.leaf node.call)
          ((node.key, node.call.id) :: trail) with
        | error fault => rfl
        | ok inner =>
          -- what has been met below the node is not met again, so the fuel lasts for the rest
          obtain ⟨forest, hwalked⟩ := forest_of_walk hi fuel node hinner (hmet _)
            (hstep _) rfl hwalk
          have hlength : trail.length + 1 ≤ inner.2.length := by
            rw [hwalked.trail, List.length_append, List.length_cons]
            omega
          exact walkWithin_eq hi fuel bound hrest hwalked.tracks (by omega) (by omega)

/-! ## 2. The whole way under a bound -/

/-- Everything up to the walk: the sum of all hits, the time between two samples, and where the
walk starts. -/
def prepare (table : NodeTable α) (start finish : Value α) :
    Except Fault (α × α × List Nat × CallTree α × Trail α) := do
  let totalHits ← table.totalHits
  let time ← sampleTime totalHits start finish
  let root := table.nodeAt 0
  let children := root.get "children"
  if children.isNull then throw (.malformed .rootWithoutChildren)
  let id ← root.require "id"
  let key ← id.key
  let call ← Call.ofFields time root
  let below ← table.findAll (← children.items) (NodeTable.referrer id)
  return (totalHits, time, below.reverse, .leaf call, [(key, id)])

/-- Everything after the walk. -/
def conclude (table : NodeTable α) (samples : Value α) (totalHits : α)
    (walked : CallTree α × Trail α) : Except Fault (Contraction α) := do
  if walked.2.length ≠ table.nodes.length then
    throw (.malformed (.unreachable (table.nodes.length - walked.2.length)))
  return ⟨walked.1, totalHits, ← redirectSamples walked.2 samples⟩

theorem ofTable_eq (table : NodeTable α) (samples start finish : Value α) (keepNatives : Bool) :
    ofTable table samples start finish keepNatives =
      prepare table start finish >>= fun state =>
        walk table state.2.1 keepNatives table.nodes.length state.2.2.1 state.2.2.2.1
          state.2.2.2.2 >>= conclude table samples state.1 := by
  simp only [ofTable, fromRoot, prepare, bind_assoc]
  refine bind_congr fun totalHits => bind_congr fun time => ?_
  by_cases hnull : ((table.nodeAt 0).get "children").isNull
  · simp only [hnull, if_true]
    rfl
  · simp only [hnull, Bool.false_eq_true, if_false, bind_assoc, pure_bind]
    rfl

/-- The walk starts at nodes of the table, with the root as the only node met. -/
theorem start_of_prepare {table : NodeTable α} (hi : table.Indexed) (hpos : 0 < table.nodes.length)
    {start finish : Value α} {totalHits time : α} {positions : List Nat} {owner : CallTree α}
    {trail : Trail α}
    (h : prepare table start finish = .ok (totalHits, time, positions, owner, trail)) :
    (∀ position ∈ positions, position < table.nodes.length) ∧ Tracks table trail ∧
      trail.length = 1 := by
  unfold prepare at h
  obtain ⟨_, -, h⟩ := bind_eq_ok.mp h
  obtain ⟨_, -, h⟩ := bind_eq_ok.mp h
  obtain ⟨-, h⟩ := check_eq_ok.mp h
  obtain ⟨id, hid, h⟩ := bind_eq_ok.mp h
  obtain ⟨key, hkey, h⟩ := bind_eq_ok.mp h
  obtain ⟨_, -, h⟩ := bind_eq_ok.mp h
  obtain ⟨_, -, h⟩ := bind_eq_ok.mp h
  obtain ⟨below, hbelow, h⟩ := bind_eq_ok.mp h
  obtain ⟨rfl, rfl, rfl, rfl, rfl⟩ : _ ∧ _ ∧ _ ∧ _ ∧ _ := by
    simpa only [Prod.mk.injEq] using pure_eq_ok.mp h
  have hrootId : idIn table.nodes 0 = id := Fields.get_of_require hid
  have hroot : (idIn table.nodes 0).key = .ok key := by rw [hrootId, hkey]
  refine ⟨fun position hp => ?_, ⟨List.nodup_singleton _, ?_⟩, rfl⟩
  · obtain ⟨name, -, hname⟩ := mem_of_mapM hbelow (List.mem_reverse.mp hp)
    exact (hi.find_eq_ok_iff.mp hname).1
  · simpa using (key_mem_names hi hpos hroot).2

/-- The result for a table, or nothing where the walk has not ended after so many nodes. -/
def ofTableWithin (bound : Nat) (table : NodeTable α) (samples start finish : Value α)
    (keepNatives : Bool) : Option (Except Fault (Contraction α)) :=
  match prepare table start finish with
  | .error fault => some (.error fault)
  | .ok (totalHits, time, positions, owner, trail) =>
    (walkWithin table time keepNatives bound positions owner trail).map fun walked =>
      walked >>= conclude table samples totalHits

/-- What a list of nodes describes, or nothing where the walk has not ended after so many nodes. -/
def ofNodesWithin (bound : Nat) (nodes : List (Value α)) (samples start finish : Value α)
    (keepNatives : Bool) : List (Value α) × Option (Except Fault (Contraction α)) :=
  if nodes.isEmpty then (nodes, some (.error (.malformed .noNodes)))
  else
    match NodeTable.ofNodes nodes with
    | .error fault => (nodes, some (.error fault))
    | .ok table =>
      match table.fillHits samples with
      | (table, .error fault) => (table.toList, some (.error fault))
      | (table, .ok ()) =>
        match table.fillChildren with
        | (table, .error fault) => (table.toList, some (.error fault))
        | (table, .ok ()) =>
          (table.toList, ofTableWithin bound table samples start finish keepNatives)

theorem ofTableWithin_eq {table : NodeTable α} (hi : table.Indexed) (hpos : 0 < table.nodes.length)
    {bound : Nat} (hbound : table.nodes.length ≤ bound) (samples start finish : Value α)
    (keepNatives : Bool) :
    ofTableWithin bound table samples start finish keepNatives =
      some (ofTable table samples start finish keepNatives) := by
  rw [ofTable_eq, ofTableWithin]
  cases hprepare : prepare table start finish with
  | error fault => rfl
  | ok state =>
    obtain ⟨totalHits, time, positions, owner, trail⟩ := state
    obtain ⟨hpositions, htracks, hlength⟩ := start_of_prepare hi hpos hprepare
    simp only
    rw [walkWithin_eq hi table.nodes.length bound hpositions htracks (by omega) hbound]
    rfl

/-- **Under every bound from the number of nodes on, every list has the result that it has.** -/
theorem ofNodesWithin_eq {nodes : List (Fields α)} {bound : Nat} (hbound : nodes.length ≤ bound)
    (samples start finish : Value α) (keepNatives : Bool) :
    ofNodesWithin bound (nodes.map .obj) samples start finish keepNatives =
      ((ofNodes (nodes.map .obj) samples start finish keepNatives).1,
        some (ofNodes (nodes.map .obj) samples start finish keepNatives).2) := by
  unfold ofNodesWithin ofNodes
  cases nodes with
  | nil => rfl
  | cons first rest =>
    simp only [List.map_cons, List.isEmpty_cons, Bool.false_eq_true, if_false]
    cases htable : NodeTable.ofNodes (Value.obj first :: rest.map .obj) with
    | error fault => rfl
    | ok table =>
      obtain ⟨hnodes, hi⟩ : table.nodes = first :: rest ∧ table.Indexed := indexed_ofNodes htable
      have hcounted := fills_fillHits table samples
      simp only
      rcases hc : table.fillHits samples with ⟨counted, _ | _⟩
      · rfl
      · rw [hc] at hcounted
        have hindexed := hcounted.indexed (by decide) hi
        simp only
        rcases hl : counted.fillChildren with ⟨linked, _ | _⟩
        · rfl
        · obtain ⟨hlinked, -⟩ := listed_fillChildren hindexed (by rw [hl])
          rw [hl] at hlinked
          have hlength : linked.nodes.length = (first :: rest).length := by
            rw [hlinked.length, hcounted.length, hnodes]
          have hpos : 0 < linked.nodes.length := hlength ▸ Nat.succ_pos rest.length
          exact congrArg _ (ofTableWithin_eq (hlinked.indexed (by decide) hindexed) hpos
            (hlength ▸ hbound) samples start finish keepNatives)

end Contraction
end SampledProfile
