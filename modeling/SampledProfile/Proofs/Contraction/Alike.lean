/-
# Tables that the walk cannot tell apart

The walk reads of a node how it is linked only to find the positions of its children.  Two tables in
which nodes are the same but for their links, and in which these lead to the same positions
(`Contraction.ReadsAs`), are one table to it.  Two walks that meet the same nodes build the same
(`Contraction.walk_of_meet`, by induction on the fuel), and from there **`Contraction.ReadsAs.ofTable_eq`:
they contract to the same, or fail for the same reason.**
-/
import SampledProfile.Proofs.Contraction.Walk
import SampledProfile.Proofs.NodeTable.Agree

namespace SampledProfile
namespace Contraction

open Outcome NodeTable

variable {α : Type} [Scalar α]

/-- The fields that say how a node is linked to others. -/
def linkFields : List String := ["children", "parent"]

/-- The tables are the same but for their links, and these lead to the same positions. -/
structure ReadsAs (table other : NodeTable α) : Prop where
  agree : Agree linkFields table other
  below : ∀ position id, childPositions other (nodeIn other.nodes position) id =
    childPositions table (nodeIn table.nodes position) id
  /-- The first node has a list of children in both, or in neither. -/
  given : ((nodeIn other.nodes 0).get "children").isNull =
    ((nodeIn table.nodes 0).get "children").isNull
  first : ∀ referrer,
    (((nodeIn other.nodes 0).get "children").items >>= fun ids => other.findAll ids referrer) =
      ((nodeIn table.nodes 0).get "children").items >>= fun ids => table.findAll ids referrer

/-- Tables that agree in all fields read the same. -/
theorem ReadsAs.of_agree {table other : NodeTable α} (h : Agree [] table other) :
    ReadsAs table other := by
  have hchildren : ∀ position, (nodeIn other.nodes position).get "children" =
      (nodeIn table.nodes position).get "children" := fun position =>
    (h.nodes position).get List.not_mem_nil
  refine ⟨h.mono (List.nil_subset _), fun position id => ?_, by rw [hchildren], fun referrer => ?_⟩
  · simp only [childPositions, hchildren, h.findAll_eq]
  · simp only [hchildren, h.findAll_eq]

/-! ## 1. Two walks -/

/-- A node that was read, at another position and with its children at others. -/
def movedBy (place : Nat → Nat) (node : SourceNode α) : SourceNode α :=
  { node with position := place node.position, below := node.below.map place }

/-- **Walks that meet the same nodes build the same, be they at the same positions or not.** -/
theorem walk_of_meet {table other : NodeTable α} {place : Nat → Nat} {time : α} {keepNatives : Bool}
    (hmeet : ∀ trail position, meet other time keepNatives trail (place position) =
      movedBy place <$> meet table time keepNatives trail position) :
    ∀ (fuel : Nat) (positions : List Nat) (owner : CallTree α) (trail : Trail α),
      walk other time keepNatives fuel (positions.map place) owner trail =
        walk table time keepNatives fuel positions owner trail
  | 0, [], _, _ | 0, _ :: _, _, _ | _ + 1, [], _, _ => by simp only [List.map_nil, List.map_cons, walk]
  | fuel + 1, position :: rest, owner, trail => by
    rw [List.map_cons, walk_cons, walk_cons, hmeet, bind_map_left]
    refine bind_congr fun node => ?_
    have hbelow : (node.below.map place).reverse = node.below.reverse.map place :=
      List.map_reverse.symm
    simp only [movedBy, hbelow, ← List.map_append, walk_of_meet hmeet fuel]

/-! ## 2. One node -/

/-- How a node is linked says nothing about its call. -/
theorem call_eq {node other : Fields α} (h : node.Same linkFields other) (time : α) :
    Call.ofFields time other = Call.ofFields time node := by
  have hget : ∀ name, name ∉ linkFields → other.get name = node.get name := fun _ => h.get
  have hgetD : ∀ name, name ∉ linkFields → ∀ value, other.getD name value = node.getD name value :=
    fun _ => h.getD
  have hrequire : other.require "id" = node.require "id" := h.require (by decide)
  simp (disch := decide) only [Call.ofFields, CallRecord.ofFields, Frame.ofFields, hget, hgetD,
    hrequire]

theorem isElided_eq {node other : Fields α} (h : node.Same linkFields other)
    (keepNatives : Bool) : isElided keepNatives other = isElided keepNatives node := by
  have hget : ∀ name, name ∉ linkFields → other.get name = node.get name := fun _ => h.get
  simp (disch := decide) only [isElided, Frame.isNative, Frame.addressOf, hget]

namespace ReadsAs

variable {table other : NodeTable α} (h : ReadsAs table other)

include h

theorem meet_eq (time : α) (keepNatives : Bool) (trail : Trail α) (position : Nat) :
    meet other time keepNatives trail position = meet table time keepNatives trail position := by
  have hnode := h.agree.nodes position
  simp only [meet, nodeAt_eq, hnode.get (show "id" ∉ linkFields by decide), call_eq hnode,
    isElided_eq hnode, h.below]

/-! ## 3. All nodes -/

/-- A walk over the one table is a walk over the other. -/
theorem walk_eq (time : α) (keepNatives : Bool) (fuel : Nat) (positions : List Nat)
    (owner : CallTree α) (trail : Trail α) :
    walk other time keepNatives fuel positions owner trail =
      walk table time keepNatives fuel positions owner trail := by
  have hsame : (movedBy id : SourceNode α → SourceNode α) = id := funext fun node => by
    rw [movedBy, List.map_id]
    rfl
  have hwalk := walk_of_meet (fun trail position => by
    rw [hsame, id_map]
    exact h.meet_eq time keepNatives trail position) fuel positions owner trail
  rwa [List.map_id] at hwalk

theorem fromRoot_eq (time : α) (keepNatives : Bool) :
    fromRoot other time keepNatives = fromRoot table time keepNatives := by
  have hnode := h.agree.nodes 0
  cases hnull : ((nodeIn table.nodes 0).get "children").isNull with
  | true =>
    have hthrow : ∀ f : PUnit → Except Fault (CallTree α × Trail α),
        (throw (.malformed .rootWithoutChildren) >>= f) =
          .error (.malformed .rootWithoutChildren) := fun _ => rfl
    simp only [fromRoot, nodeAt_eq, h.given, hnull, if_true, hthrow]
  | false =>
    simp only [fromRoot, nodeAt_eq, h.given, hnull, Bool.false_eq_true, if_false,
      hnode.require (show "id" ∉ linkFields by decide), call_eq hnode, h.agree.length, h.walk_eq]
    refine bind_congr fun id => bind_congr fun key => bind_congr fun call => ?_
    rw [← bind_assoc, ← bind_assoc, h.first]

/-- **Both contract to the same, or fail for the same reason.** -/
theorem ofTable_eq (samples start finish : Value α) (keepNatives : Bool) :
    ofTable other samples start finish keepNatives =
      ofTable table samples start finish keepNatives := by
  simp only [ofTable, h.agree.totalHits_eq (show "hitCount" ∉ linkFields by decide),
    h.fromRoot_eq, h.agree.length]

end ReadsAs

end Contraction
end SampledProfile
