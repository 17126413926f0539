/-
# Repair joins what was split

A sample whose stack could not be walked ends the outermost call that was running, and the next
sample starts it once more.  Where the repair has replaced such a sample, the replay of the model
knows nothing of that: the frame that lies on no other goes on through the replaced sample and the
one behind it (`Model.joined_of_load`).

Two things are brought together.  The repair has found the same top-level node on both sides, and
has left the samples there as they were recorded (`Model.Gap`).  And a replay closes and
opens no frame that lies on no other between calls with one top-level node
(`Replay.joined_of_calls`).
-/
import SampledProfile.Proofs.Replay.Outermost
import SampledProfile.Proofs.Replay.Windows
import SampledProfile.Proofs.Samples.Missed
import SampledProfile.Proofs.Unrepaired

namespace SampledProfile
namespace Model

open Outcome

/-! ## 1. Reports of a model -/

section Reports

variable {α : Type} [Scalar α] {model : Model α}

/-- What a replay of a window reports at each of its samples, as far as it gets. -/
def reportsWith (model : Model α) (scratch : Scratch α) (start stop : Value α) :
    Except Fault (List (List (Event α))) :=
  match model.samples with
  | none => .ok []
  | some samples => do
    let (stream, _) ← model.window samples start stop
    let stream ← stream.mapM fun sample => do
      return (← requirePosition model.names sample.1, sample.2)
    return Replay.reportsOf model.arena model.system.collector (isAlike model.arena) stream scratch

theorem reportsWith_eq (h : model.Sound) {samples : List (Value α)}
    (hsamples : model.samples = some samples) {nodes : List Nat}
    (hnodes : samples.mapM (requirePosition model.names) = .ok nodes) (scratch : Scratch α)
    (start stop : Option α) :
    model.reportsWith scratch (.ofOption (start.map .num)) (.ofOption (stop.map .num)) =
      .ok (Replay.reportsOf model.arena model.system.collector (isAlike model.arena)
        (model.streamOf nodes start stop) scratch) := by
  obtain ⟨last, hwindow, -⟩ := window_eq (h.times samples hsamples) start stop
  have hslice := mapM_slice_eq hnodes model.timestamps (model.firstIndex start)
    (model.stopIndex samples.length start stop)
  rw [reportsWith, hsamples]
  dsimp only
  rw [hwindow, ok_bind]
  dsimp only
  rw [hslice, ok_bind, streamOf, length_of_mapM hnodes]
  rfl

end Reports

/-! ## 2. Around a replaced sample -/

section Around

variable {before model : Model Number}

/-- What is found for an id is not the node of the collection, unless the id is one of the
system. -/
theorem ne_collector {arena : Arena (Call Number) Number} {names : List (Key × Nat)}
    (hnames : namesOf arena = .ok names) {system : SystemNodes} {program : Nat}
    {id : Value Number} (hid : ¬ Repair.IsSystem ⟨idAt arena program,
      systemId arena system.collector, systemId arena system.idle⟩ id) {node : Nat}
    (hnode : requirePosition names id = .ok node) : system.collector ≠ some node := by
  intro hcollector
  refine hid (.inr (.inl ?_))
  obtain ⟨_, hfound⟩ := of_positionOf hnames (positionOf_of_require hnode)
  rw [hcollector]
  exact hfound

/-- Around a replaced sample there is a call twice, and then another one with the same top-level
node. -/
structure Gap (model : Model Number) (samples : List (Value Number)) (index : Nat)
    (node other top : Nat) : Prop where
  pos : 0 < index
  before : ∃ id, samples[index - 1]? = some id ∧ samples[index]? = some id ∧
    requirePosition model.names id = .ok node
  after : ∃ id, samples[index + 1]? = some id ∧ requirePosition model.names id = .ok other
  call : model.system.collector ≠ some node
  next : model.system.collector ≠ some other
  callTop : model.arena.IsTop node top
  nextTop : model.arena.IsTop other top

/-- What the repair of samples leaves around one that it has replaced. -/
theorem exists_gap (hplaced : before.arena.WellPlaced)
    (hnames : namesOf before.arena = .ok before.names) {recorded samples : List (Value Number)}
    (hids : ∀ id ∈ recorded, ∃ call ∈ before.arena.labels, call.id = id) {count : Nat}
    (hrepair : repair before.arena before.names before.system recorded = .ok (samples, count))
    {index : Nat} (hchanged : samples[index]? ≠ recorded[index]?) :
    ∃ node other top, Gap before samples index node other top := by
  unfold repair at hrepair
  split at hrepair
  · cases hrepair
    exact absurd rfl hchanged
  rename_i program hprogram
  obtain ⟨_, -, hpair⟩ := map_eq_ok.mp hrepair
  have hsamples : (Repair.run (topOf before.arena before.names) _ recorded).1 = samples :=
    (Prod.mk.inj hpair).1
  have hkeys := exists_systemKeys hnames before.system program
  have hresolves : ∀ id ∈ recorded,
      Repair.Resolves before.arena (requirePosition before.names) id := by
    intro id hid
    obtain ⟨call, hcall, rfl⟩ := hids id hid
    exact ⟨exists_key_of_label hnames hcall, exists_position hnames hcall⟩
  obtain ⟨repaired, hrun, hsimultaneous⟩ := Repair.exists_simultaneous hplaced hkeys hresolves
  obtain rfl : repaired = samples := (congrArg Prod.fst hrun).symm.trans hsamples
  -- what was not missed has not changed
  have hat := not_imp_comm.mp (hsimultaneous.kept index) hchanged
  obtain ⟨id, _, later, hmissed, hbefore, hsample, hafter⟩ :=
    hsimultaneous.around (Repair.standAlone hkeys hresolves) hat
  obtain ⟨node, other, top, hnode, hother, htop, hsame⟩ := hmissed.top
  exact ⟨node, other, top, hat.1, ⟨id, hbefore, hsample, hnode⟩, ⟨later, hafter, hother⟩,
    ne_collector hnames hmissed.previous hnode, ne_collector hnames hmissed.next hother, htop,
    hsame⟩

/-- Every sample of a stream has its time. -/
theorem exists_sample {α : Type} {nodes : List Nat} {times : List α}
    (htimes : times.length = nodes.length + 1) {index node : Nat} (h : nodes[index]? = some node) :
    ∃ time, (nodes.zip times)[index]? = some (node, time) := by
  have hindex := (List.getElem?_eq_some_iff.mp h).1
  exact ⟨_, List.getElem?_zip_eq_some.mpr ⟨h, List.getElem?_eq_getElem (by omega)⟩⟩

/-- In the replay of all samples the call goes on, unless it is the root. -/
theorem Gap.joined {samples : List (Value Number)} {index node other top : Nat}
    (hgap : Gap model samples index node other top) (h : model.Sound) {nodes : List Nat}
    (hnodes : samples.mapM (requirePosition model.names) = .ok nodes)
    (hlt : ∀ node ∈ nodes, node < model.arena.size)
    (htimes : model.timestamps.length = nodes.length + 1) (hne : top ≠ 0)
    (scratch : Scratch Number) :
    Replay.Joined (Replay.reportsOf model.arena model.system.collector (isAlike model.arena)
      (nodes.zip model.timestamps) scratch) index := by
  obtain ⟨id, hprevious, hself, hnode⟩ := hgap.before
  obtain ⟨later, hnext, hother⟩ := hgap.after
  obtain ⟨index, rfl⟩ := Nat.exists_eq_succ_of_ne_zero (Nat.ne_of_gt hgap.pos)
  obtain ⟨_, hfirst⟩ := exists_sample htimes (getElem?_of_mapM hnodes hprevious hnode)
  obtain ⟨_, hsecond⟩ := exists_sample htimes (getElem?_of_mapM hnodes hself hnode)
  obtain ⟨_, hthird⟩ := exists_sample htimes (getElem?_of_mapM hnodes hnext hother)
  have hall : ∀ sample ∈ nodes.zip model.timestamps, sample.1 < model.arena.size :=
    fun sample hmem => hlt _ (List.of_mem_zip hmem).1
  exact Replay.joined_of_calls h.wellPlaced h.collector_ne_zero hall hfirst hsecond hthird rfl
    hgap.call hgap.next hne hgap.callTop hgap.nextTop

end Around

/-! ## 3. Loaded models -/

variable {profile : Value Number} {keepNatives : Bool} {before model : Model Number}

/-- Around a sample that the repair of a profile has replaced. -/
theorem exists_gap_of_load (hbefore : unrepaired profile keepNatives = .ok before)
    (h : load profile keepNatives = .ok model) {index : Nat}
    (hindex : index ∈ replaced before model) :
    ∃ samples node other top, model.samples = some samples ∧
      Gap model samples index node other top := by
  obtain ⟨recording, -, hprepare⟩ := bind_eq_ok.mp hbefore
  obtain ⟨hnames, hids⟩ := names_of_prepare hprepare
  have hplaced : model.arena.WellPlaced := (sound_of_load h).wellPlaced
  rw [load_eq_bind, hbefore, ok_bind] at h
  unfold mend at h
  split at h
  · cases h
    exact absurd rfl hindex
  · rename_i recorded hrecorded
    obtain ⟨⟨samples, count⟩, hrepair, rfl⟩ := map_eq_ok.mp h
    have hchanged : samples[index]? ≠ recorded[index]? := by
      simpa [replaced, hrecorded] using hindex
    obtain ⟨node, other, top, hgap⟩ :=
      exists_gap hplaced hnames (hids recorded hrecorded) hrepair hchanged
    exact ⟨samples, node, other, top, rfl, ⟨hgap.pos, hgap.before, hgap.after, hgap.call,
      hgap.next, hgap.callTop, hgap.nextTop⟩⟩

/-- **Repair joins the call that a missed sample had split.**  In the replay of all samples, a frame
that lies on no other is open before a replaced sample, and it is still the same one after this
sample and the next, unless the sample before is of the root. -/
theorem joined_of_load (hbefore : unrepaired profile keepNatives = .ok before)
    (h : load profile keepNatives = .ok model)
    (hfinite : ∀ time ∈ model.timestamps, (Scalar.exact time).isFinite = true) {index : Nat}
    (hindex : index ∈ replaced before model)
    (hcall : ∀ id, (model.samples.getD [])[index - 1]? = some id →
      model.byId id ≠ .ok (some 0))
    (scratch : Scratch Number) :
    ∃ reports, model.reportsWith scratch .null .null = .ok reports ∧
      Replay.Joined reports index ∧
      (∀ left events, model.replayWith scratch .null .null = .ok (left, events) →
        reports.length = (model.samples.getD []).length ∧
          ∃ closing, events = reports.flatten ++ closing) ∧
      ((∀ position, model.system.collector = some position →
          isAlike model.arena position = true) →
        model.scratchSize ≤ scratch.starts.size → model.scratchSize ≤ scratch.inner.size →
        ∃ left events, model.replayWith scratch .null .null = .ok (left, events)) := by
  have hsound := sound_of_load h
  obtain ⟨samples, node, other, top, hsamples, hgap⟩ := exists_gap_of_load hbefore h hindex
  obtain ⟨nodes, hnodes, hlt⟩ := hsound.exists_nodes hsamples
  have hcount : nodes.length = samples.length := length_of_mapM hnodes
  have htimes : model.timestamps.length = nodes.length + 1 := hcount ▸ hsound.times samples hsamples
  have hstream := streamOf_of_finite hfinite htimes
  have hreports := reportsWith_eq hsound hsamples hnodes scratch none none
  obtain ⟨last, hrun, -⟩ := replayWith_eq_run hsound hsamples hnodes none none
  rw [hstream] at hreports hrun
  refine ⟨_, hreports, ?_, fun left events hevents => ?_, fun halike hstarts hinner => ?_⟩
  · refine hgap.joined hsound hnodes hlt htimes (fun hzero => ?_) scratch
    obtain ⟨id, hprevious, -, hnode⟩ := hgap.before
    rw [(hsound.wellPlaced.top_eq_zero_iff hgap.callTop).mp hzero] at hnode
    rw [hsamples] at hcall
    exact hcall id hprevious (positionOf_of_require hnode)
  · rw [show model.replayWith scratch .null .null = _ from hrun scratch] at hevents
    obtain ⟨hlength, hclosing⟩ := Replay.exists_closing hevents
    refine ⟨?_, hclosing⟩
    rw [hsamples, Option.getD_some, ← hcount]
    refine hlength.trans ?_
    rw [List.length_zip]
    omega
  · obtain ⟨_, _, -, -, hreplay⟩ := exists_replayWith hsound halike hsamples none none
    have hsize : model.arena.maxDepth + 2 ≤ model.scratchSize := Nat.le_succ _
    obtain ⟨left, hleft⟩ := hreplay scratch (hsize.trans hstarts) (hsize.trans hinner)
    exact ⟨left, _, hleft⟩

/-- A profile of a call that goes on to another one, with the program between. -/
def splitCalls : Value Number :=
  .obj [
    ("nodes", .list [
      .obj [("id", .int 1), ("children", .list [.int 2, .int 3])],
      .obj [("id", .int 2), ("functionName", .str "f"), ("children", .list [.int 4])],
      .obj [("id", .int 3), ("functionName", .str programName)],
      .obj [("id", .int 4), ("functionName", .str "g")]]),
    ("samples", .list [.int 2, .int 3, .int 4]),
    ("endTime", .int 1000)]

theorem joined_of_load_splitCalls :
    ∃ before model reports, unrepaired splitCalls false = .ok before ∧
      load splitCalls false = .ok model ∧ 1 ∈ replaced before model ∧
      model.reportsWith (Scratch.blank model.scratchSize) .null .null = .ok reports ∧
      Replay.Joined reports 1 := by
  have hchecked : (do
      let before ← unrepaired splitCalls false
      let model ← load splitCalls false
      return (decide ((before.samples.getD [])[1]?.map Value.key ≠
          (model.samples.getD [])[1]?.map Value.key),
        model.timestamps.all fun time => (Scalar.exact time).isFinite,
        decide ((model.samples.getD [])[0]?.map model.byId ≠ some (Except.ok (some 0))))) =
          .ok (true, true, true) := by
    decide +kernel
  obtain ⟨before, hbefore, hchecked⟩ := bind_eq_ok.mp hchecked
  obtain ⟨model, hload, hchecks⟩ := bind_eq_ok.mp hchecked
  obtain ⟨hchanged, hchecks⟩ := Prod.mk.inj (pure_eq_ok.mp hchecks)
  obtain ⟨hfinite, hcall⟩ := Prod.mk.inj hchecks
  have hindex : 1 ∈ replaced before model := by
    intro heq
    exact of_decide_eq_true hchanged (congrArg (Option.map Value.key) heq.symm)
  have hprevious : ∀ id, (model.samples.getD [])[1 - 1]? = some id →
      model.byId id ≠ .ok (some 0) := by
    intro id hid hroot
    refine of_decide_eq_true hcall ?_
    rw [hid, Option.map_some, hroot]
  obtain ⟨reports, hreports, hjoined, -⟩ := joined_of_load hbefore hload
    (List.all_eq_true.mp hfinite) hindex hprevious (Scratch.blank model.scratchSize)
  exact ⟨before, model, reports, hbefore, hload, hindex, hreports, hjoined⟩

end Model
end SampledProfile
