/-
# Contracting natives keeps the time

A profile can be loaded with its native functions or with these contracted.  Read exactly, both
models have the same time at the same places:

* `Model.exists_ofRecording_of_ofRecording`: a profile that loads one way loads the other way, if it
  can be told of its nodes whether they are native;
* `Model.exists_place_of_byId`: a node that is there without the natives has the total that it has
  with them, and `Model.exists_holds`: the tree has the whole time of the profile, if there are hits.

`Model.conserves_of_load` puts that together.  Of an address that is no text it cannot be told
whether it is native, and then a profile may load with its natives only
(`Model.load_numberedAddress`).
-/
import Mathlib.Algebra.Ring.Rat
import SampledProfile.Proofs.Arena.Totals
import SampledProfile.Proofs.Contraction.Agreement
import SampledProfile.Proofs.Places
import SampledProfile.Proofs.Samples.Chronology

namespace SampledProfile
namespace Model

open Outcome

/-- A subtree stands at the place of its root, and its total is the time of its calls. -/
theorem of_laid (tree : CallTree Rat) {subtree : CallTree Rat} {place depth : Nat}
    (h : (tree.arrange Call.self).Laid [subtree] place depth) :
    place < (tree.arrange Call.self).size ∧
      idAt (tree.arrange Call.self) place = subtree.label.id ∧
      (tree.arrange Call.self).totalAt place = Contraction.selfSum subtree := by
  have hsum := Arena.sum_totalAt_of_laid Call.self tree h
  cases h with
  | cons hlabel _ _ _ _ =>
    refine ⟨Arena.lt_size_of_label hlabel, idAt_of_label hlabel, ?_⟩
    simpa [Contraction.selfSum] using hsum

/-! ## 1. Loading both ways -/

/-- As many samples are given the same times. -/
theorem Timed.exists_of_length {recording : Recording Rat} {samples others ordered : List (Value Rat)}
    {line : Timeline Rat} (h : Timed recording samples ordered line)
    (hlength : others.length = samples.length) :
    ∃ reordered, Timed recording others reordered line ∧ reordered.Perm others := by
  cases h with
  | @recorded times sorted ordered line htimes hsort hline =>
    obtain ⟨hsamples, hperm⟩ := Samples.perm_of_sort hsort
    have hnumbers : ∀ time ∈ times, time.number?.isSome := fun time htime =>
      Timeline.numbers_of_ofSamples hline time (hperm.mem_iff.mpr htime)
    obtain ⟨_, heq⟩ := Samples.sort_eq samples hnumbers
    obtain ⟨reordered, hother⟩ := Samples.sort_eq others hnumbers
    obtain ⟨-, rfl⟩ := Prod.mk.inj (Except.ok.inj (hsort.symm.trans heq))
    rw [hlength] at hother
    have hothers := (Samples.perm_of_sort hother).1
    have hcount : reordered.length = ordered.length := by
      rw [hothers.length_eq, hlength, hsamples.length_eq]
    rw [← hcount] at hline
    exact ⟨reordered, .recorded htimes hother hline, hothers⟩
  | spread htimes hline => exact ⟨others, .spread htimes (hlength ▸ hline), .refl _⟩

/-- **What can be loaded one way can be loaded the other way, if it can be told which nodes are
dropped.** -/
theorem exists_ofRecording_of_ofRecording {recording : Recording Rat} {keepNatives keepOthers : Bool}
    {model : Model Rat} (h : ofRecording recording keepNatives = .ok model)
    (helided : ∀ node ∈ recording.nodes.drop 1,
      ∃ elided, Contraction.isElided keepOthers node = .ok elided) :
    ∃ other, ofRecording recording keepOthers = .ok other := by
  obtain ⟨contraction, names, hcontraction, hnames, hstages⟩ := ofRecording_eq_ok_iff.mp h
  obtain ⟨other, hother⟩ := Contraction.exists_ofNodes_of_ofNodes hcontraction helided
  obtain ⟨otherNames, hotherNames⟩ := exists_namesOf_of_ofNodes hother
  have hcounts := (Contraction.samples_of_ofNodes hother).trans
    (Contraction.samples_of_ofNodes hcontraction).symm
  cases hstages with
  | bare hsamples =>
    rw [hsamples, Option.map_none, Option.map_eq_none_iff] at hcounts
    exact ⟨_, ofRecording_eq_ok_iff.mpr ⟨other, otherNames, hother, hotherNames, .bare hcounts⟩⟩
  | sampled hsamples htimed _ =>
    rw [hsamples, Option.map_some] at hcounts
    obtain ⟨others, hothers, hlength⟩ := Option.map_eq_some_iff.mp hcounts
    obtain ⟨reordered, hreordered, hperm⟩ := htimed.exists_of_length hlength
    obtain ⟨repaired, count, hrepair⟩ := exists_repair hotherNames
      (systemNodes (other.tree.arrange Call.self)) fun id hid =>
        ids_of_ofNodes hother hothers id (hperm.mem_iff.mp hid)
    exact ⟨_, ofRecording_eq_ok_iff.mpr ⟨other, otherNames, hother, hotherNames,
      .sampled hothers hreordered hrepair⟩⟩

/-! ## 2. Times -/

/-- All of a time is in the model, at the root and over all nodes. -/
structure Holds (model : Model Rat) (time : Rat) : Prop where
  root : model.arena.totalAt 0 = time
  total : model.arena.total = time
  selves : (model.arena.labels.map Call.self).sum = time

/-- Two models of a recording agree in their times: the nodes of the second have the totals that
they have in the first, and either has all the time of the recording, if there are hits. -/
structure Conserves (recording : Recording Rat) (full contracted : Model Rat) : Prop where
  hits : full.totalHits = contracted.totalHits
  totals : ∀ id position, contracted.byId id = .ok (some position) →
    ∃ place, full.byId id = .ok (some place) ∧
      full.arena.totalAt place = contracted.arena.totalAt position
  whole : contracted.totalHits ≠ 0 → ∃ first last, recording.start.number? = some first ∧
    recording.finish.number? = some last ∧ full.Holds (last - first) ∧
      contracted.Holds (last - first)

/-- If there are hits, a model holds the time of its recording. -/
theorem exists_holds {recording : Recording Rat} {keepNatives : Bool} {model : Model Rat}
    (h : ofRecording recording keepNatives = .ok model) (hne : model.totalHits ≠ 0) :
    ∃ first last, recording.start.number? = some first ∧ recording.finish.number? = some last ∧
      model.Holds (last - first) := by
  obtain ⟨contraction, names, hcontraction, -, hstages⟩ := ofRecording_eq_ok_iff.mp h
  obtain ⟨harena, -, hhits⟩ := hstages.of_model
  rw [hhits] at hne
  obtain ⟨first, last, hfirst, hlast, hsum⟩ := Contraction.selfSum_of_ofNodes hcontraction hne
  have hroot : model.arena.totalAt 0 = last - first := by
    rw [harena, (of_laid _ (Tree.laid_arrange Call.self contraction.tree)).2.2, hsum]
  refine ⟨first, last, hfirst, hlast, hroot, hroot, ?_⟩
  rw [harena, ← hsum]
  exact ((Tree.wellPlaced_arrange Call.self contraction.tree).2.map Call.self).sum_eq

/-- **With the natives and without them, nodes have the same totals.** -/
theorem exists_place_of_byId {recording : Recording Rat} {keepNatives : Bool}
    {full contracted : Model Rat} (h : ofRecording recording true = .ok full)
    (h' : ofRecording recording keepNatives = .ok contracted) {id : Value Rat} {position : Nat}
    (hid : contracted.byId id = .ok (some position)) :
    ∃ place, full.byId id = .ok (some place) ∧
      full.arena.totalAt place = contracted.arena.totalAt position := by
  obtain ⟨whole, names, hwhole, hnames, hstages⟩ := ofRecording_eq_ok_iff.mp h
  obtain ⟨kept, keptNames, hkept, hkeptNames, hkeptStages⟩ := ofRecording_eq_ok_iff.mp h'
  obtain ⟨harena, rfl, -⟩ := hstages.of_model
  obtain ⟨hkeptArena, rfl, -⟩ := hkeptStages.of_model
  obtain ⟨hp, hname⟩ := of_positionOf hkeptNames hid
  -- the node is the root of a subtree, and so it is with the natives
  obtain ⟨subtree, hsubtree, depth, hlaid⟩ := Arena.Laid.exists_subtree
    (Tree.wellPlaced_arrange Call.self kept.tree).1 (Tree.laid_arrange Call.self kept.tree)
    position hp
  obtain ⟨-, hrootId, hrootTotal⟩ := of_laid _ hlaid
  rw [Tree.subtreesAll, Tree.subtreesAll, List.append_nil] at hsubtree
  obtain ⟨other, hother, hotherId, hsum⟩ := Contraction.exists_full_of_kept hwhole hkept hsubtree
  obtain ⟨place, otherDepth, hplace, hotherLaid⟩ :=
    (Tree.laid_arrange Call.self whole.tree).exists_position other
      (by simpa [Tree.subtreesAll] using hother)
  obtain ⟨-, hplaceId, hplaceTotal⟩ := of_laid _ hotherLaid
  have hnd : ((whole.tree.arrange Call.self).labels.map fun call => call.id.key).Nodup :=
    ((Tree.wellPlaced_arrange Call.self whole.tree).2.map _).nodup_iff.mpr
      (Contraction.keys_of_ofNodes hwhole).1
  refine ⟨place, positionOf_of_place hnames hnd hplace ?_, ?_⟩
  · rw [hplaceId, hotherId, ← hrootId]
    exact hname
  · rw [harena, hkeptArena, hplaceTotal, hrootTotal, hsum]

/-- **A profile that can be loaded, and of whose nodes it can be told whether they are native, can be
loaded with the natives and without them, and both models have the same time at the same places.** -/
theorem conserves_of_load {profile : Value Rat} {recording : Recording Rat} {keepNatives : Bool}
    {model : Model Rat} (hrecording : Recording.ofProfile profile = .ok recording)
    (h : load profile keepNatives = .ok model)
    (hnative : keepNatives = true → ∀ node ∈ recording.nodes.drop 1,
      ∃ native, Frame.isNative node = .ok native) :
    ∃ full contracted, load profile true = .ok full ∧ load profile false = .ok contracted ∧
      Conserves recording full contracted := by
  have hload : ∀ {keep : Bool} {loaded : Model Rat},
      load profile keep = .ok loaded ↔ ofRecording recording keep = .ok loaded := by
    intro keep loaded
    rw [load, hrecording, ok_bind]
  rw [hload] at h
  obtain ⟨full, hfull⟩ := exists_ofRecording_of_ofRecording h
    (show ∀ node ∈ recording.nodes.drop 1, ∃ elided, Contraction.isElided true node = .ok elided
      from fun _ _ => ⟨false, rfl⟩)
  obtain ⟨contracted, hcontracted⟩ : ∃ contracted, ofRecording recording false = .ok contracted := by
    cases keepNatives with
    | true => exact exists_ofRecording_of_ofRecording h (hnative rfl)
    | false => exact ⟨model, h⟩
  have hhits : full.totalHits = contracted.totalHits := by
    obtain ⟨whole, _, hwhole, -, hstages⟩ := ofRecording_eq_ok_iff.mp hfull
    obtain ⟨kept, _, hkept, -, hkeptStages⟩ := ofRecording_eq_ok_iff.mp hcontracted
    rw [hstages.of_model.2.2, hkeptStages.of_model.2.2]
    exact (Contraction.exists_sources hkept hwhole).1
  refine ⟨full, contracted, hload.mpr hfull, hload.mpr hcontracted, hhits,
    fun id position => exists_place_of_byId hfull hcontracted, fun hne => ?_⟩
  obtain ⟨first, last, hfirst, hlast, hholds⟩ := exists_holds hcontracted hne
  obtain ⟨first', last', hfirst', hlast', hholds'⟩ := exists_holds hfull (hhits ▸ hne)
  obtain rfl := Option.some.inj (hfirst.symm.trans hfirst')
  obtain rfl := Option.some.inj (hlast.symm.trans hlast')
  exact ⟨first, last, hfirst, hlast, hholds', hholds⟩

/-- A profile of three calls, of which the one in the middle is native. -/
def nativeCall : Value Rat :=
  .obj [
    ("nodes", .list [
      .obj [("id", .int 1), ("hitCount", .int 1), ("children", .list [.int 2])],
      .obj [("id", .int 2), ("hitCount", .int 2), ("children", .list [.int 3]),
        ("url", .str "native array.js")],
      .obj [("id", .int 3), ("hitCount", .int 3), ("url", .str "app.js")]]),
    ("startTime", .int 0),
    ("endTime", .int 12000)]

theorem conserves_nativeCall :
    ∃ recording full contracted, load nativeCall true = .ok full ∧
      load nativeCall false = .ok contracted ∧ Conserves recording full contracted := by
  have hchecked : (do
      let recording ← Recording.ofProfile nativeCall
      let model ← load nativeCall true
      return ((recording.nodes.drop 1).all fun node => (Frame.isNative node).isOk,
        model.names.length)) = .ok (true, 3) := by
    decide +kernel
  obtain ⟨recording, hrecording, hchecks⟩ := bind_eq_ok.mp hchecked
  obtain ⟨model, hload, hchecks⟩ := bind_eq_ok.mp hchecks
  obtain ⟨hnative, -⟩ := Prod.mk.inj (pure_eq_ok.mp hchecks)
  obtain ⟨full, contracted, hfull, hcontracted, hconserves⟩ :=
    conserves_of_load hrecording hload fun _ node hnode =>
      exists_of_isOk (List.all_eq_true.mp hnative node hnode)
  exact ⟨recording, full, contracted, hfull, hcontracted, hconserves⟩

/-- A profile with a call of which it cannot be told whether it is native. -/
def numberedAddress : Value Rat :=
  .obj [
    ("nodes", .list [
      .obj [("id", .int 1), ("hitCount", .int 0), ("children", .list [.int 2])],
      .obj [("id", .int 2), ("hitCount", .int 1), ("url", .int 5)]]),
    ("startTime", .int 0),
    ("endTime", .int 1000)]

/-- **An address that is no text does not matter where natives are kept, and is a fault where they
are not.** -/
theorem load_numberedAddress :
    (∃ model, load numberedAddress true = .ok model) ∧
      ¬ ∃ model, load numberedAddress false = .ok model := by
  have hkept : (load numberedAddress true).isOk = true := by decide +kernel
  have hcontracted : (load numberedAddress false).isOk = false := by decide +kernel
  refine ⟨exists_of_isOk hkept, ?_⟩
  rintro ⟨model, hmodel⟩
  rw [hmodel] at hcontracted
  cases hcontracted

end Model
end SampledProfile
