/-
# The order of the nodes does not matter

A profile of the current format says by ids which nodes are the children of which, so the nodes may stand
in any order behind the first one, which is the root.  Where the first node lists its children and hits are
integers, the profile with its nodes in another order is loaded exactly if the profile itself is, and as
the same model (`Model.load_reordered`).

Nodes are copied one by one (`Recording.ofProfile_reordered`), and what the copies contract to does not
depend on their order (`Contraction.ofNodes_reordered`).
-/
import SampledProfile.Proofs.Contraction.Moved
import SampledProfile.Proofs.Linked
import SampledProfile.Proofs.Recording.Reported

namespace SampledProfile

open Outcome

/-! ## 1. Recordings -/

namespace Recording

variable {α : Type} [Scalar α]

/-- A profile of the current format is read when its nodes can be copied and the rest can be read. -/
theorem ofCurrent_eq_ok_iff {profile : Fields α} {recording : Recording α} :
    ofCurrent profile = .ok recording ↔
      ∃ items nodes, (profile.get "nodes").items = .ok items ∧ items.mapM copyNode = .ok nodes ∧
        ofFlat profile nodes = .ok recording := by
  simp only [ofCurrent, ofFlat, bind_eq_ok]
  constructor
  · rintro ⟨times, htimes, samples, hsamples, items, hitems, nodes, hnodes, hrest⟩
    exact ⟨items, nodes, hitems, hnodes, times, htimes, samples, hsamples, hrest⟩
  · rintro ⟨items, nodes, hitems, hnodes, times, htimes, samples, hsamples, hrest⟩
    exact ⟨times, htimes, samples, hsamples, items, hitems, nodes, hnodes, hrest⟩

/-- The nodes go into a recording as they are. -/
theorem of_ofFlat {profile : Fields α} {nodes : List (Fields α)} {recording : Recording α}
    (h : ofFlat profile nodes = .ok recording) : recording.nodes = nodes ∧
      ∀ others, ofFlat profile others = .ok { recording with nodes := others } := by
  obtain ⟨times, htimes, h⟩ := bind_eq_ok.mp h
  obtain ⟨samples, hsamples, h⟩ := bind_eq_ok.mp h
  obtain ⟨start, hstart, h⟩ := bind_eq_ok.mp h
  obtain ⟨finish, hfinish, h⟩ := bind_eq_ok.mp h
  obtain rfl := pure_eq_ok.mp h
  refine ⟨rfl, fun others => ?_⟩
  rw [ofFlat, htimes, ok_bind, hsamples, ok_bind, hstart, ok_bind, hfinish, ok_bind]
  rfl

/-- A copy has children if the node has. -/
theorem isNull_children_of_copyNode {node copy : Fields α} (h : copyNode (.obj node) = .ok copy) :
    (copy.get "children").isNull = (node.get "children").isNull := by
  simp only [copyNode, asObject, ok_bind] at h
  split at h
  · rw [pure_eq_ok.mp h]
  · rename_i hgiven
    obtain ⟨ids, -, h⟩ := bind_eq_ok.mp h
    rw [← pure_eq_ok.mp h, Fields.get, Fields.get?_set_self]
    simpa [Value.isNull] using hgiven

/-- **Nodes in another order are read as the same copies in that order.** -/
theorem ofProfile_reordered {profile first : Fields α} {rest : List (Value α)}
    {recording : Recording α} (hhead : (profile.get "head").truthy = false)
    (hnodes : profile.get "nodes" = .list (.obj first :: rest))
    (h : ofProfile (.obj profile) = .ok recording) :
    ∃ copy : Value α → Fields α, (∀ node ∈ .obj first :: rest, copyNode node = .ok (copy node)) ∧
      recording.nodes = (.obj first :: rest).map copy ∧
      ∀ (other : Fields α) (others : List (Value α)), profile.Same ["nodes"] other →
        other.get "nodes" = .list (.obj first :: others) → others.Perm rest →
        ofProfile (.obj other) =
          .ok { recording with nodes := (.obj first :: others).map copy } := by
  rw [ofProfile_of_nodes hhead (by rw [hnodes]; rfl)] at h
  obtain ⟨items, nodes, hitems, hcopied, hflat⟩ := ofCurrent_eq_ok_iff.mp h
  rw [hnodes] at hitems
  obtain rfl := Except.ok.inj hitems
  have hnonempty : Nonempty (Fields α) := ⟨[]⟩
  obtain ⟨copy, hcopy, rfl⟩ := exists_map_of_mapM hcopied
  obtain ⟨hread, hothers⟩ := of_ofFlat hflat
  refine ⟨copy, hcopy, hread, fun other others hsame hnodes' hperm => ?_⟩
  have hhead' : (other.get "head").truthy = false := by rw [hsame.get (by decide), hhead]
  rw [ofProfile_of_nodes hhead' (by rw [hnodes']; rfl)]
  have hcopied' : (.obj first :: others).mapM copyNode = .ok ((.obj first :: others).map copy) :=
    mapM_eq_ok_of_forall fun node hnode => hcopy node ((hperm.cons _).mem_iff.mp hnode)
  exact ofCurrent_eq_ok_iff.mpr ⟨_, _, by rw [hnodes']; rfl, hcopied',
    (ofFlat_of_same hsame _).trans (hothers _)⟩

end Recording

/-! ## 2. Models -/

namespace Model

open Recording NodeTable

/-- A profile of which the nodes stand in another order is loaded if the profile is. -/
theorem load_of_reordered {profile other first : Fields Number} {rest others : List (Value Number)}
    (hsame : profile.Same ["nodes"] other) (hhead : (profile.get "head").truthy = false)
    (hnodes : profile.get "nodes" = .list (.obj first :: rest))
    (hnodes' : other.get "nodes" = .list (.obj first :: others))
    (hchildren : (first.get "children").isNull = false)
    (hwhole : ∀ node, .obj node ∈ .obj first :: rest → WholeHits node) (h : others.Perm rest)
    {keepNatives : Bool} {model : Model Number}
    (hload : load (.obj profile) keepNatives = .ok model) :
    load (.obj other) keepNatives = .ok model := by
  obtain ⟨recording, hrecording, hmodel⟩ := bind_eq_ok.mp hload
  obtain ⟨copy, hcopy, hread, hother⟩ := ofProfile_reordered hhead hnodes hrecording
  have hfirst : ((copy (.obj first)).get "children").isNull = false := by
    rw [isNull_children_of_copyNode (hcopy _ List.mem_cons_self), hchildren]
  have hcopied : ∀ node ∈ (.obj first :: rest).map copy, WholeHits node := by
    intro node hnode
    obtain ⟨v, hv, rfl⟩ := List.mem_map.mp hnode
    obtain ⟨given, rfl, hgiven⟩ := same_of_copyNode (hcopy v hv)
    have hhits := hwhole given hv
    rwa [WholeHits, ← hgiven.get (by decide)] at hhits
  refine bind_eq_ok.mpr ⟨_, hother other others hsame hnodes' h, ?_⟩
  refine ofRecording_of_nodes (fun contraction hcontraction => ?_) hmodel
  rw [hread] at hcontraction
  exact Contraction.ofNodes_reordered hfirst hcopied (h.map copy) hcontraction

/-- **The order of the nodes behind the first one does not matter.** -/
theorem load_reordered {profile first : Fields Number} {rest others : List (Value Number)}
    (hhead : (profile.get "head").truthy = false)
    (hnodes : profile.get "nodes" = .list (.obj first :: rest))
    (hchildren : (first.get "children").isNull = false)
    (hwhole : ∀ node, .obj node ∈ .obj first :: rest → WholeHits node) (h : others.Perm rest)
    (keepNatives : Bool) (model : Model Number) :
    load (.obj (profile.set "nodes" (.list (.obj first :: others)))) keepNatives = .ok model ↔
      load (.obj profile) keepNatives = .ok model := by
  have hsame : profile.Same ["nodes"] (profile.set "nodes" (.list (.obj first :: others))) :=
    (Fields.Same.refl _ _).set_right List.mem_cons_self _
  have hnodes' : (profile.set "nodes" (.list (.obj first :: others))).get "nodes" =
      .list (.obj first :: others) := by
    rw [Fields.get, Fields.get?_set_self]
    rfl
  constructor
  · refine load_of_reordered (fun name hname => (hsame name hname).symm) ?_ hnodes' hnodes hchildren
      (fun node hnode => hwhole node ((h.cons _).mem_iff.mp hnode)) h.symm
    rw [hsame.get (by decide), hhead]
  · exact load_of_reordered hsame hhead hnodes hnodes' hchildren hwhole h

/-- A root that lists a native function and the node of the program. -/
def scatteredRoot : Fields Number :=
  [("id", .int 1), ("functionName", .str "(root)"), ("hitCount", .int 0),
    ("children", .list [.int 2, .int 3])]

/-- The native function with a call of its own, which stands behind it. -/
def scatteredNodes : List (Value Number) := [
  .obj [("id", .int 2), ("functionName", .str "f"), ("url", .str "native array.js"),
    ("hitCount", .int 2), ("children", .list [.int 4])],
  .obj [("id", .int 3), ("functionName", .str "(program)"), ("hitCount", .int 1)],
  .obj [("id", .int 4), ("functionName", .str "g"), ("hitCount", .int 1)]]

/-- A profile of a walk into the native function and out of it. -/
def scattered : Fields Number := [
  ("nodes", .list (.obj scatteredRoot :: scatteredNodes)),
  ("samples", .list [.int 4, .int 3, .int 4, .int 2]),
  ("endTime", .int 4000)]

theorem load_reordered_scattered :
    (scattered.get "head").truthy = false ∧
      scattered.get "nodes" = .list (.obj scatteredRoot :: scatteredNodes) ∧
      (scatteredRoot.get "children").isNull = false ∧
      (∀ node, .obj node ∈ .obj scatteredRoot :: scatteredNodes → WholeHits node) ∧
      scatteredNodes.reverse.Perm scatteredNodes ∧
      ∃ model, load (.obj scattered) false = .ok model ∧
        load (.obj (scattered.set "nodes" (.list (.obj scatteredRoot :: scatteredNodes.reverse))))
          false = .ok model := by
  have hwhole : ∀ node, .obj node ∈ .obj scatteredRoot :: scatteredNodes → WholeHits node := by
    intro node hnode
    simp only [scatteredNodes, List.mem_cons, Value.obj.injEq, List.not_mem_nil, or_false] at hnode
    rcases hnode with rfl | rfl | rfl | rfl <;> exact fun _ => ⟨_, rfl⟩
  have hperm := scatteredNodes.reverse_perm
  have hloads : (load (.obj scattered) false).isOk = true := by decide +kernel
  obtain ⟨model, hload⟩ := exists_of_isOk hloads
  exact ⟨rfl, rfl, rfl, hwhole, hperm, model, hload,
    (load_reordered rfl rfl rfl hwhole hperm false model).mpr hload⟩

end Model
end SampledProfile
