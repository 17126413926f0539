/-
# Call trees under other names

A flat list of nodes that has other names describes the same call tree with other names
(`Renaming.image_contraction`): the same children in the same order, the same own times, and samples
that are redirected to the same nodes.

The walk reads one node after the other, and what it reads is the same under any names except the
id (`Renaming.image_meet`).  From that step it follows for whole walks, by induction on the fuel
(`Renaming.image_walk`).
-/
import SampledProfile.Proofs.Contraction.Source
import SampledProfile.Proofs.Renaming.Tables

namespace SampledProfile

/-! ## 1. Other labels -/

namespace Tree

variable {β γ : Type} {f : β → γ}

theorem mapAll_append (trees others : List (Tree β)) :
    mapAll f (trees ++ others) = mapAll f trees ++ mapAll f others := by
  induction trees with
  | nil => rfl
  | cons tree rest ih => rw [List.cons_append, mapAll, mapAll, ih, List.cons_append]

theorem label_map (tree : Tree β) : (tree.map f).label = f tree.label := by
  cases tree
  rfl

theorem map_attach (owner child : Tree β) :
    (owner.attach child).map f = (owner.map f).attach (child.map f) := by
  obtain ⟨label, below⟩ := owner
  rw [attach, map, map, attach, mapAll_append]
  rfl

theorem map_relabel {g : β → β} {g' : γ → γ} (h : ∀ label, f (g label) = g' (f label))
    (tree : Tree β) : (tree.relabel g).map f = (tree.map f).relabel g' := by
  obtain ⟨label, below⟩ := tree
  rw [relabel, map, map, relabel, h]

end Tree

namespace Renaming

open Outcome NodeTable Contraction

variable {α : Type} [Scalar α] (r : Renaming α)

/-- The call with a new name. -/
def call (call : Call α) : Call α := { call with id := r.value call.id }

/-- What the walk reads of a node, under new names. -/
def source (node : SourceNode α) : SourceNode α :=
  { node with key := r.key node.key, call := r.call node.call }

/-- The trail with new names. -/
def trail (trail : Trail α) : Trail α := trail.map fun entry => (r.key entry.1, r.value entry.2)

/-- The call tree with new names, and the samples. -/
def contraction (contraction : Contraction α) : Contraction α :=
  { contraction with
    tree := contraction.tree.map r.call
    samples := contraction.samples.map (List.map r.value) }

/-! ## 2. Calls -/

theorem ofFields_fields (node : Fields α) :
    Frame.ofFields (r.fields node) = Frame.ofFields node := by
  unfold Frame.ofFields
  rw [r.get_fields_of_isPlain node "callFrame" (by decide),
    r.getD_fields_of_isPlain node "lineNumber" (by decide),
    r.getD_fields_of_isPlain node "columnNumber" (by decide),
    r.getD_fields_of_isPlain node "functionName" (by decide),
    r.getD_fields_of_isPlain node "scriptId" (by decide),
    r.getD_fields_of_isPlain node "url" (by decide)]

theorem isNative_fields (node : Fields α) :
    Frame.isNative (r.fields node) = Frame.isNative node := by
  unfold Frame.isNative Frame.addressOf
  rw [r.get_fields_of_isPlain node "callFrame" (by decide),
    r.get_fields_of_isPlain node "url" (by decide)]

theorem image_ofFields (sampleTime : α) (node : Fields α) :
    Image r.call (Call.ofFields sampleTime node) (Call.ofFields sampleTime (r.fields node)) := by
  unfold Call.ofFields CallRecord.ofFields
  rw [ofFields_fields, get_hitCount, r.get_fields_of_isPlain node "positionTicks" (by decide),
    r.get_fields_of_isPlain node "deoptReason" (by decide)]
  rw [bind_assoc, bind_assoc]
  refine .bind_same fun frame _ => ?_
  rw [bind_assoc, bind_assoc]
  refine (r.image_require_id node).bind fun name _ => ?_
  exact .bind_same fun time _ => .bind_same fun self _ => .ok _

/-! ## 3. The walk -/

theorem image_childPositions (table : NodeTable α) (node : Fields α) (name other : Value α) :
    Image id (childPositions table node name)
      (childPositions (r.table table) (r.fields node) other) := by
  unfold childPositions
  rw [get_children, orElse_listed, items_listed]
  exact (Image.map_self _ _).bind fun names _ => r.image_findAll table names _ _

theorem lookup_trail (trail : Trail α) (key : Key) :
    (r.key key).lookup (r.trail trail) = (key.lookup trail).map r.value :=
  r.lookup_map r.value key trail

theorem trail_cons (key : Key) (name : Value α) (trail : Trail α) :
    r.trail ((key, name) :: trail) = (r.key key, r.value name) :: r.trail trail := rfl

theorem length_trail (trail : Trail α) : (r.trail trail).length = trail.length :=
  List.length_map _

theorem id_label_map (owner : CallTree α) :
    (owner.map r.call).label.id = r.value owner.label.id := by
  rw [Tree.label_map]
  rfl

theorem relabel_absorb (owner : CallTree α) (time : α) :
    (owner.relabel (·.absorb time)).map r.call = (owner.map r.call).relabel (·.absorb time) := by
  refine Tree.map_relabel ?_ owner
  exact fun call => rfl

variable (table : NodeTable α) (sampleTime : α) (keepNatives : Bool)

theorem image_meet (trail : Trail α) (position : Nat) :
    Image r.source (meet table sampleTime keepNatives trail position)
      (meet (r.table table) sampleTime keepNatives (r.trail trail) position) := by
  unfold meet
  simp only [nodeAt_table, get_id]
  refine (r.image_key _).bind fun key _ => ?_
  rw [lookup_trail, Option.isSome_map]
  refine .check fun _ => (r.image_ofFields sampleTime _).bind fun call _ => ?_
  have helided : isElided keepNatives (r.fields (table.nodeAt position)) =
      isElided keepNatives (table.nodeAt position) := by
    unfold isElided
    rw [isNative_fields]
  rw [helided]
  refine .bind_same fun elided _ => (r.image_childPositions table _ _ _).bind fun below _ => ?_
  exact .ok _

/-- **A walk under new names makes the same tree with the new names, and the same trail.** -/
theorem image_walk : ∀ (fuel : Nat) (positions : List Nat) (owner : CallTree α) (trail : Trail α),
    Image (fun result => (result.1.map r.call, r.trail result.2))
      (walk table sampleTime keepNatives fuel positions owner trail)
      (walk (r.table table) sampleTime keepNatives fuel positions (owner.map r.call)
        (r.trail trail))
  | fuel, [], owner, trail => by
    rw [walk, walk]
    exact .ok (owner, trail)
  | 0, _ :: _, owner, trail => .ok (owner, trail)
  | fuel + 1, position :: rest, owner, trail => by
    rw [walk_cons, walk_cons]
    refine (r.image_meet table sampleTime keepNatives trail position).bind fun node _ => ?_
    change Image _ (if node.elided = true then _ else _) (if node.elided = true then _ else _)
    -- a dropped node goes on within the owner, a kept one has a walk and a tree of its own
    split
    · have hwalk := image_walk fuel (node.below.reverse ++ rest)
        (owner.relabel (·.absorb node.call.self)) ((node.key, owner.label.id) :: trail)
      rwa [relabel_absorb, trail_cons, ← id_label_map] at hwalk
    · refine (image_walk fuel node.below.reverse (.leaf node.call)
        ((node.key, node.call.id) :: trail)).bind fun inner _ => ?_
      have hwalk := image_walk fuel rest (owner.attach inner.1) inner.2
      rwa [Tree.map_attach] at hwalk

theorem image_fromRoot :
    Image (fun result => (result.1.map r.call, r.trail result.2))
      (fromRoot table sampleTime keepNatives)
      (fromRoot (r.table table) sampleTime keepNatives) := by
  simp only [fromRoot, nodeAt_table, get_children, isNull_listed, items_listed]
  refine .check fun _ => (r.image_require_id _).bind fun name _ => ?_
  refine (r.image_key name).bind fun key _ => (r.image_ofFields sampleTime _).bind fun call _ => ?_
  refine (Image.map_self _ _).bind fun names _ => ?_
  refine (r.image_findAll table names _ _).bind fun below _ => ?_
  rw [length_table]
  exact r.image_walk table sampleTime keepNatives table.nodes.length below.reverse (.leaf call)
    [(key, name)]

/-! ## 4. The whole way -/

theorem image_redirectSample (trail : Trail α) (sample : Value α) :
    Image r.value (redirectSample trail sample)
      (redirectSample (r.trail trail) (r.value sample)) := by
  refine (r.image_key sample).bind fun key _ => ?_
  rw [lookup_trail]
  cases key.lookup trail with
  | none => exact .error _ _
  | some name => exact .ok name

theorem image_redirectSamples (trail : Trail α) (samples : Value α) :
    Image (Option.map (List.map r.value)) (redirectSamples trail samples)
      (redirectSamples (r.trail trail) (r.listed samples)) := by
  unfold redirectSamples
  rw [isNull_listed, items_listed]
  split
  · exact .ok none
  · refine (Image.map_self _ _).bind fun names _ => ?_
    exact (Image.mapM fun sample _ => r.image_redirectSample trail sample).bind fun ids _ => .ok _

theorem image_ofTable (samples start finish : Value α) :
    Image r.contraction (ofTable table samples start finish keepNatives)
      (ofTable (r.table table) (r.listed samples) start finish keepNatives) := by
  unfold ofTable
  rw [totalHits_table]
  refine .bind_same fun totalHits _ => .bind_same fun sampleTime _ => ?_
  refine (r.image_fromRoot table sampleTime keepNatives).bind fun result _ => ?_
  obtain ⟨tree, trail⟩ := result
  dsimp only
  rw [length_table, length_trail]
  exact .check fun _ => (r.image_redirectSamples trail samples).bind fun ids _ => .ok _

/-- **A flat list of nodes under new names has the same call tree under the new names.** -/
theorem image_contraction (nodes : List (Value α)) (samples start finish : Value α)
    (keepNatives : Bool) :
    Image r.contraction (Contraction.ofNodes nodes samples start finish keepNatives).2
      (Contraction.ofNodes (nodes.map r.node) (r.listed samples) start finish keepNatives).2 := by
  by_cases hne : nodes = []
  · subst hne
    exact .error _ _
  rw [ofNodes_snd_eq_bind hne, ofNodes_snd_eq_bind (by simpa using hne)]
  refine (r.image_ofNodes nodes).bind fun table _ => ?_
  obtain ⟨htable, hhits⟩ := r.filled_fillHits table samples
  refine hhits.bind fun _ _ => ?_
  rw [filledTable, filledTable, htable]
  obtain ⟨hlinked, hchildren⟩ := r.filled_fillChildren (table.fillHits samples).1
  refine hchildren.bind fun _ _ => ?_
  rw [hlinked]
  exact r.image_ofTable _ keepNatives samples start finish

end Renaming
end SampledProfile
