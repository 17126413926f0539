/-
# What every loaded model is like

A model that a profile loads to is SOUND (`Model.Sound`, `Model.sound_of_load`):

* its arena is that of a tree;
* the node of the garbage collection, if there is one, is a child of the root;
* every sample is the id of a node;
* there is a time for every sample, and one more.

Every stage of loading has its share in that (`Model.Stages`).  Contraction gives samples that are ids
of its tree, sorting and repair only move them about, and the timeline is as long as the stream.
-/
import SampledProfile.Model
import SampledProfile.Proofs.Arena
import SampledProfile.Proofs.Contraction.Contracted
import SampledProfile.Proofs.Samples.Permutation
import SampledProfile.Proofs.Samples.Stream

namespace SampledProfile
namespace Model

open Outcome

variable {α : Type} [Scalar α]

/-- A model as loading makes it. -/
structure Sound (model : Model α) : Prop where
  wellPlaced : model.arena.WellPlaced
  names : namesOf model.arena = .ok model.names
  collector : ∀ position, model.system.collector = some position →
    position ∈ model.arena.children 0
  /-- Every sample is the id of a node. -/
  samples : ∀ samples, model.samples = some samples →
    ∀ id ∈ samples, ∃ call ∈ model.arena.labels, call.id = id
  times : ∀ samples, model.samples = some samples →
    model.timestamps.length = samples.length + 1

/-! ## 1. Nodes -/

/-- Ids are found where their nodes stand. -/
theorem exists_position {arena : Arena (Call α) α} {names : List (Key × Nat)}
    (h : namesOf arena = .ok names) {call : Call α} (hcall : call ∈ arena.labels) :
    ∃ position < arena.size, requirePosition names call.id = .ok position := by
  obtain ⟨slot, hslot, rfl⟩ := List.mem_map.mp hcall
  obtain ⟨index, hindex⟩ := List.mem_iff_getElem?.mp hslot
  have hentry : (slot, index) ∈ arena.toList.zipIdx := List.mk_mem_zipIdx_iff_getElem?.mpr hindex
  obtain ⟨named, hnamed, hstep⟩ := exists_of_forall₂ (mapM_eq_ok_iff.mp h) hentry
  obtain ⟨key, hkey, hpair⟩ := bind_eq_ok.mp hstep
  obtain rfl := pure_eq_ok.mp hpair
  obtain ⟨position, hposition⟩ : ∃ position, key.lookup names = some position :=
    Option.isSome_iff_exists.mp
      (Key.isSome_lookup_iff.mpr (List.mem_map.mpr ⟨_, hnamed, rfl⟩))
  refine ⟨position, ?_, ?_⟩
  · obtain ⟨⟨other, place⟩, hother, hfound⟩ := mem_of_mapM h (Key.mem_of_lookup_eq_some hposition)
    obtain ⟨otherKey, -, hpair⟩ := bind_eq_ok.mp hfound
    obtain ⟨-, rfl⟩ := Prod.mk.inj (pure_eq_ok.mp hpair)
    have hlt := (List.getElem?_eq_some_iff.mp (List.mk_mem_zipIdx_iff_getElem?.mp hother)).1
    simpa using hlt
  · simp [requirePosition, positionOf, hkey, hposition, bind, Except.bind, pure, Except.pure]

/-- What is noted of a node is its position. -/
theorem collector_noteSystem {nodes : SystemNodes} {position other : Nat} {name : Value α}
    (h : (noteSystem nodes position name).collector = some other) :
    other = position ∨ nodes.collector = some other := by
  unfold noteSystem at h
  split at h
  · exact .inr h
  · split at h
    · exact .inl (Option.some.inj h).symm
    · split at h
      · exact .inr h
      · split at h <;> exact .inr h

/-- Going through some nodes, one of them is noted or what was noted before stays. -/
theorem collector_foldl {note : SystemNodes → Nat → SystemNodes}
    (hnote : ∀ nodes position other, (note nodes position).collector = some other →
      other = position ∨ nodes.collector = some other) {position : Nat} :
    ∀ (positions : List Nat) {nodes : SystemNodes},
      (positions.foldl note nodes).collector = some position →
        position ∈ positions ∨ nodes.collector = some position
  | [], _, h => .inr h
  | first :: rest, nodes, h => by
    rcases collector_foldl hnote rest h with hrest | hnoted
    · exact .inl (List.mem_cons_of_mem _ hrest)
    · rcases hnote nodes first position hnoted with rfl | hbefore
      · exact .inl List.mem_cons_self
      · exact .inr hbefore

theorem mem_children_of_collector {arena : Arena (Call α) α} {position : Nat}
    (h : (systemNodes arena).collector = some position) : position ∈ arena.children 0 := by
  refine (collector_foldl (fun nodes other found hfound => ?_) _ h).resolve_right nofun
  split at hfound
  · exact collector_noteSystem hfound
  · exact .inr hfound

/-- The root is not the node of the garbage collection. -/
theorem Sound.collector_ne_zero {model : Model α} (h : model.Sound) :
    model.system.collector ≠ some 0 := fun hzero => by
  have hchild := (List.mem_filter.mp (h.collector 0 hzero)).2
  rw [h.wellPlaced.rootParent] at hchild
  cases hchild

/-! ## 2. Stages of loading -/

/-- The samples of a recording in order, with the times that they are given. -/
inductive Timed (recording : Recording α) (samples : List (Value α)) :
    List (Value α) → Timeline α → Prop
  | recorded {times sorted ordered : List (Value α)} {line : Timeline α} :
      recording.timestamps = some times → Samples.sort samples times = .ok (ordered, sorted) →
      Timeline.ofSamples ordered.length (some sorted) recording.start recording.finish = .ok line →
      Timed recording samples ordered line
  | spread {line : Timeline α} : recording.timestamps = none →
      Timeline.ofSamples samples.length none recording.start recording.finish = .ok line →
      Timed recording samples samples line

/-- What loading makes of a recording once its tree is there. -/
inductive Stages (recording : Recording α) (contraction : Contraction α)
    (names : List (Key × Nat)) : Model α → Prop
  | bare : contraction.samples = none →
      Stages recording contraction names ⟨contraction.tree.arrange Call.self, names,
        systemNodes (contraction.tree.arrange Call.self), contraction.totalHits, recording.start,
        recording.finish, [], none, 0, recording.lines⟩
  | sampled {samples ordered repaired : List (Value α)} {line : Timeline α} {count : Nat} :
      contraction.samples = some samples → Timed recording samples ordered line →
      repair (contraction.tree.arrange Call.self) names
        (systemNodes (contraction.tree.arrange Call.self)) ordered = .ok (repaired, count) →
      Stages recording contraction names ⟨contraction.tree.arrange Call.self, names,
        systemNodes (contraction.tree.arrange Call.self), contraction.totalHits, line.start,
        line.finish, line.timestamps, some repaired, count, recording.lines⟩

theorem ofRecording_eq_ok_iff {recording : Recording α} {keepNatives : Bool} {model : Model α} :
    ofRecording recording keepNatives = .ok model ↔
      ∃ contraction names,
        (Contraction.ofNodes (recording.nodes.map .obj)
          (Value.ofOption (recording.samples.map .list)) recording.start recording.finish
          keepNatives).2 = .ok contraction ∧
        namesOf (contraction.tree.arrange Call.self) = .ok names ∧
        Stages recording contraction names model := by
  unfold ofRecording
  rw [bind_eq_ok]
  refine exists_congr fun contraction => ?_
  rw [bind_eq_ok, ← exists_and_left]
  refine exists_congr fun names => and_congr_right fun _ => and_congr_right fun _ => ?_
  dsimp only
  constructor
  · intro h
    cases hsamples : contraction.samples with
    | none =>
      rw [hsamples] at h
      cases h
      exact .bare hsamples
    | some samples =>
      rw [hsamples] at h
      dsimp only at h
      split at h
      · rename_i times htimes
        obtain ⟨⟨ordered, sorted⟩, hsort, h⟩ := bind_eq_ok.mp h
        obtain ⟨_, hpair, h⟩ := bind_eq_ok.mp h
        cases hpair
        obtain ⟨line, hline, h⟩ := bind_eq_ok.mp h
        obtain ⟨⟨repaired, count⟩, hrepair, h⟩ := bind_eq_ok.mp h
        cases h
        exact .sampled hsamples (.recorded htimes hsort hline) hrepair
      · rename_i htimes
        obtain ⟨_, hpair, h⟩ := bind_eq_ok.mp h
        cases hpair
        obtain ⟨line, hline, h⟩ := bind_eq_ok.mp h
        obtain ⟨⟨repaired, count⟩, hrepair, h⟩ := bind_eq_ok.mp h
        cases h
        exact .sampled hsamples (.spread htimes hline) hrepair
  · intro h
    cases h with
    | bare hsamples => simp [hsamples, pure, Except.pure]
    | sampled hsamples htimed hrepair =>
      cases htimed with
      | recorded htimes hsort hline =>
        simp [hsamples, htimes, hsort, hline, hrepair, bind, Except.bind, pure, Except.pure]
      | spread htimes hline =>
        simp [hsamples, htimes, hline, hrepair, bind, Except.bind, pure, Except.pure]

/-- Of the nodes of a recording it counts only what they contract to. -/
theorem ofRecording_congr {recording : Recording α} {keepNatives : Bool}
    {nodes : List (Fields α)}
    (h : (Contraction.ofNodes (nodes.map .obj) (Value.ofOption (recording.samples.map .list))
        recording.start recording.finish keepNatives).2 =
      (Contraction.ofNodes (recording.nodes.map .obj)
        (Value.ofOption (recording.samples.map .list)) recording.start recording.finish
        keepNatives).2) :
    ofRecording { recording with nodes := nodes } keepNatives = ofRecording recording keepNatives := by
  simp only [ofRecording, h]

/-- Nodes that contract to whatever those of a recording contract to make the same model. -/
theorem ofRecording_of_nodes {recording : Recording α} {keepNatives : Bool} {model : Model α}
    {nodes : List (Fields α)}
    (h : ∀ contraction,
      (Contraction.ofNodes (recording.nodes.map .obj) (Value.ofOption (recording.samples.map .list))
        recording.start recording.finish keepNatives).2 = .ok contraction →
      (Contraction.ofNodes (nodes.map .obj) (Value.ofOption (recording.samples.map .list))
        recording.start recording.finish keepNatives).2 = .ok contraction)
    (hmodel : ofRecording recording keepNatives = .ok model) :
    ofRecording { recording with nodes := nodes } keepNatives = .ok model := by
  obtain ⟨contraction, -, hcontraction, -⟩ := ofRecording_eq_ok_iff.mp hmodel
  rw [ofRecording_congr ((h contraction hcontraction).trans hcontraction.symm), hmodel]

/-- The samples of a contraction are ids of nodes in the arena of its tree. -/
theorem ids_of_ofNodes {nodes : List (Fields α)} {given start finish : Value α}
    {keepNatives : Bool} {contraction : Contraction α}
    (h : (Contraction.ofNodes (nodes.map .obj) given start finish keepNatives).2 = .ok contraction)
    {samples : List (Value α)} (hsamples : contraction.samples = some samples) :
    ∀ id ∈ samples, ∃ call ∈ (contraction.tree.arrange Call.self).labels, call.id = id := by
  intro id hid
  obtain ⟨call, hcall, hlabel⟩ := Contraction.exists_label_of_mem_samples h hsamples id hid
  exact ⟨call, (Tree.wellPlaced_arrange Call.self contraction.tree).2.mem_iff.mpr hcall, hlabel⟩

theorem of_repair {arena : Arena (Call α) α} {names : List (Key × Nat)} {system : SystemNodes}
    {samples repaired : List (Value α)} {count : Nat}
    (h : repair arena names system samples = .ok (repaired, count)) :
    repaired.length = samples.length ∧ ∀ id ∈ repaired, id ∈ samples := by
  unfold repair at h
  split at h
  · cases h
    exact ⟨rfl, fun _ hid => hid⟩
  · obtain ⟨_, -, h⟩ := map_eq_ok.mp h
    cases h
    exact ⟨Repair.length_run _ _ _, fun _ hid => Repair.mem_of_mem_run hid⟩

/-- Samples in any order, with times for them and repaired, are sound. -/
theorem sound_of_ordered {arena : Arena (Call α) α} {names : List (Key × Nat)}
    (hplaced : arena.WellPlaced) (hnames : namesOf arena = .ok names)
    {samples ordered repaired : List (Value α)}
    (hids : ∀ id ∈ samples, ∃ call ∈ arena.labels, call.id = id)
    (hperm : ordered.Perm samples) {times : Option (List (Value α))} {start finish : Value α}
    {line : Timeline α} (hline : Timeline.ofSamples ordered.length times start finish = .ok line)
    {count : Nat} (hrepair : repair arena names (systemNodes arena) ordered = .ok (repaired, count))
    {totalHits : α} {lines : Value α} :
    Sound ⟨arena, names, systemNodes arena, totalHits, line.start, line.finish, line.timestamps,
      some repaired, count, lines⟩ := by
  obtain ⟨hlength, hmem⟩ := of_repair hrepair
  refine ⟨hplaced, hnames, fun _ => mem_children_of_collector, fun samples hsome id hid => ?_,
    fun samples hsome => ?_⟩
  · obtain rfl := Option.some.inj hsome
    exact hids id (hperm.mem_iff.mp (hmem id hid))
  · obtain rfl := Option.some.inj hsome
    rw [hlength]
    exact Timeline.length_of_ofSamples hline

theorem sound_of_ofRecording {recording : Recording α} {keepNatives : Bool} {model : Model α}
    (h : ofRecording recording keepNatives = .ok model) : model.Sound := by
  obtain ⟨contraction, names, hcontraction, hnames, hstages⟩ := ofRecording_eq_ok_iff.mp h
  have hplaced := (Tree.wellPlaced_arrange Call.self contraction.tree).1
  cases hstages with
  | bare => exact ⟨hplaced, hnames, fun _ => mem_children_of_collector, by simp, by simp⟩
  | sampled hsamples htimed hrepair =>
    have hids := ids_of_ofNodes hcontraction hsamples
    cases htimed with
    | recorded _ hsort hline =>
      exact sound_of_ordered hplaced hnames hids (Samples.perm_of_sort hsort).1 hline hrepair
    | spread _ hline => exact sound_of_ordered hplaced hnames hids (.refl _) hline hrepair

/-- **Every model that is loaded is sound.** -/
theorem sound_of_load {profile : Value α} {keepNatives : Bool} {model : Model α}
    (h : load profile keepNatives = .ok model) : model.Sound := by
  obtain ⟨recording, -, h⟩ := bind_eq_ok.mp h
  exact sound_of_ofRecording h

end Model
end SampledProfile
