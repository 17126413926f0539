/-
# Replays run forward

The samples of a profile that is read exactly are in the order of their times, and so the replay of
any window of it goes forward in time: no frame closes before it opens (`Event.Forward`).

* `Model.chronological_of_load`: every loaded profile that does not run backwards has its samples in
  the order of their times, from its start to its end; and if no recorded time is above a bound that
  was recorded too, then the bound is in order as well, and every replay runs forward.
* `Model.replay_earlyBound`: a bound that is below a time is taken as it is.  Then the profile ends
  before its last sample starts, and a frame is open for less than no time.
-/
import SampledProfile.Proofs.Replay.SelfTime
import SampledProfile.Proofs.Samples.Chronology

namespace SampledProfile

open Outcome

/-! ## 1. Brackets in time -/

/-- A report does not say that a frame was open for less than no time. -/
def Event.Forward : Event Rat → Prop
  | .opened .. => True
  | .closed _ _ _ duration _ => 0 ≤ duration

instance : DecidablePred Event.Forward
  | .opened .. => inferInstanceAs (Decidable True)
  | .closed _ _ _ duration _ => inferInstanceAs (Decidable (0 ≤ duration))

section Forward

variable {brackets next last : List (Bracket Rat)} {time : Rat}

theorem starts_nest (duration : Rat) (brackets : List (Bracket Rat)) :
    (nest duration brackets).map Bracket.start = brackets.map Bracket.start := by
  cases brackets <;> rfl

theorem Reports.forward {event : Event Rat} (h : Reports time brackets event next)
    (hstarts : ∀ start ∈ brackets.map Bracket.start, start ≤ time) :
    event.Forward ∧ ∀ start ∈ next.map Bracket.start, start ≤ time := by
  cases h with
  | opened node => exact ⟨trivial, List.forall_mem_cons.mpr ⟨le_refl time, hstarts⟩⟩
  | closed bracket below =>
    obtain ⟨hbracket, hbelow⟩ := List.forall_mem_cons.mp hstarts
    exact ⟨sub_nonneg.mpr hbracket, starts_nest _ below ▸ hbelow⟩

theorem ReportsAll.forward {events : List (Event Rat)} (h : ReportsAll time brackets events next)
    (hstarts : ∀ start ∈ brackets.map Bracket.start, start ≤ time) :
    (∀ event ∈ events, event.Forward) ∧ ∀ start ∈ next.map Bracket.start, start ≤ time := by
  induction h with
  | nil => exact ⟨by simp, hstarts⟩
  | cons hevent _ ih =>
    obtain ⟨hforward, hnext⟩ := hevent.forward hstarts
    obtain ⟨hrest, hlast⟩ := ih hnext
    exact ⟨List.forall_mem_cons.mpr ⟨hforward, hrest⟩, hlast⟩

/-- **Where the times are in order, no frame is open for less than no time.** -/
theorem Bracketed.forward {times : List Rat} {events : List (Event Rat)}
    (h : Bracketed brackets times events last) (htimes : times.Pairwise (· ≤ ·))
    (hstarts : ∀ start ∈ brackets.map Bracket.start, ∀ time ∈ times, start ≤ time) :
    ∀ event ∈ events, event.Forward := by
  induction h with
  | nil => simp
  | cons hreports _ ih =>
    obtain ⟨hfirst, hrest⟩ := List.pairwise_cons.mp htimes
    obtain ⟨hforward, hnext⟩ :=
      hreports.forward fun start hstart => hstarts start hstart _ List.mem_cons_self
    refine List.forall_mem_append.mpr ⟨hforward, ih hrest fun start hstart time htime => ?_⟩
    exact (hnext start hstart).trans (hfirst time htime)

end Forward

/-! ## 2. Loaded models -/

namespace Model

open Samples (moment)

variable {model : Model Rat}

/-- The times at which a window is replayed are some of all, in their order. -/
theorem sublist_streamOf {nodes : List Nat} (htimes : model.timestamps.length = nodes.length + 1)
    {start stop : Option Rat} {last : Rat}
    (hlast : model.timestamps[model.stopIndex nodes.length start stop]? = some last)
    (hstop : model.stopIndex nodes.length start stop ≤ nodes.length) :
    ((model.streamOf nodes start stop).map Prod.snd ++ [last]).Sublist model.timestamps := by
  have hstream : (model.streamOf nodes start stop).map Prod.snd =
      (model.timestamps.take (model.stopIndex nodes.length start stop)).drop
        (model.firstIndex start) := by
    rw [streamOf, List.map_drop, List.map_take, Samples.map_snd_zip_eq, List.take_take]
    congr 2
    omega
  have hnext : model.timestamps.take (model.stopIndex nodes.length start stop) ++ [last] =
      model.timestamps.take (model.stopIndex nodes.length start stop + 1) := by
    rw [List.take_add_one, hlast, Option.toList_some]
  rw [hstream]
  exact ((List.drop_sublist _ _).append_right _).trans (hnext ▸ List.take_sublist _ _)

/-- If the times are in order, the replay of a window runs forward. -/
theorem Sound.exists_forward (h : model.Sound) {samples : List (Value Rat)}
    (hsamples : model.samples = some samples) (htimes : model.timestamps.Pairwise (· ≤ ·))
    (start stop : Option Rat) :
    ∃ events, model.replay (.ofOption (start.map .num)) (.ofOption (stop.map .num)) = .ok events ∧
      ∀ event ∈ events, event.Forward := by
  obtain ⟨nodes, last, hnodes, -, hlast, hreplay, -⟩ := h.exists_replay hsamples start stop
  have hcount : nodes.length = samples.length := length_of_mapM hnodes
  refine ⟨_, hreplay, ?_⟩
  have hbracketed : Bracketed [] ((model.streamOf nodes start stop).map Prod.snd ++ [last])
      (replayed model.arena model.system.collector last [] (model.streamOf nodes start stop) [])
      [] :=
    replayed_bracketed last h.wellPlaced h.collector_ne_zero _ rfl .nil
  refine hbracketed.forward (htimes.sublist ?_) (by simp)
  rw [← hcount] at hlast
  exact sublist_streamOf (hcount ▸ h.times samples hsamples) hlast
    (hcount ▸ stopIndex_le model samples start stop)

/-- The samples of a recording that does not run backwards are given times in their order. -/
theorem inOrder_of_timed {recording : Recording Rat}
    (hspan : ∀ s f, recording.start.number? = some s → recording.finish.number? = some f → s ≤ f)
    {samples ordered : List (Value Rat)} {line : Timeline Rat}
    (h : Timed recording samples ordered line) (hpos : 0 < ordered.length) :
    line.InOrder ordered.length ∧
      ((∀ times bound, recording.timestamps = some times → times[ordered.length]? = some bound →
        ∀ time ∈ times, moment time ≤ moment bound) → line.timestamps.Pairwise (· ≤ ·)) := by
  cases h with
  | @recorded times sorted ordered line htimes hsort hline =>
    obtain ⟨hsamples, hperm⟩ := Samples.perm_of_sort hsort
    have hnumbers : ∀ time ∈ times, time.number?.isSome := fun time htime =>
      Timeline.numbers_of_ofSamples hline time (hperm.mem_iff.mpr htime)
    obtain ⟨hsorted, hbound⟩ := Samples.pairwise_of_sort hnumbers hsort
    rw [← hsamples.length_eq] at hsorted hbound
    obtain ⟨horder, hpairwise⟩ := Timeline.inOrder_of_ofSamples hpos hspan
      (fun given hgiven => Option.some.inj hgiven ▸ hsorted) hline
    refine ⟨horder, fun h => hpairwise fun given bound hgiven hget time htime => ?_⟩
    obtain rfl := Option.some.inj hgiven
    exact h times bound htimes (hbound ▸ hget) time
      (hperm.mem_iff.mp (List.mem_of_mem_take htime))
  | spread htimes hline =>
    obtain ⟨horder, hpairwise⟩ :=
      Timeline.inOrder_of_ofSamples hpos hspan (fun _ hgiven => by cases hgiven) hline
    exact ⟨horder, fun _ => hpairwise fun _ _ hgiven => by cases hgiven⟩

/-- **The samples of a loaded profile that does not run backwards are in the order of their times,
from its start to its end.  If no recorded time is above a bound that was recorded too, then so is
the bound, and no frame of a replay is open for less than no time.** -/
theorem chronological_of_load {profile : Value Rat} {recording : Recording Rat}
    (hrecording : Recording.ofProfile profile = .ok recording)
    (hspan : ∀ s f, recording.start.number? = some s → recording.finish.number? = some f → s ≤ f)
    {keepNatives : Bool} (h : load profile keepNatives = .ok model) {samples : List (Value Rat)}
    (hsamples : model.samples = some samples) (hne : samples ≠ []) :
    model.timestamps.length = samples.length + 1 ∧
      (model.timestamps.take samples.length).Pairwise (· ≤ ·) ∧
      model.start.number? = model.timestamps[0]? ∧
      model.finish.number? = model.timestamps[samples.length]? ∧
      ((∀ times bound, recording.timestamps = some times → times[samples.length]? = some bound →
          ∀ time ∈ times, moment time ≤ moment bound) →
        model.timestamps.Pairwise (· ≤ ·) ∧
        ∀ start stop : Option Rat, ∃ events,
          model.replay (.ofOption (start.map .num)) (.ofOption (stop.map .num)) = .ok events ∧
          ∀ event ∈ events, event.Forward) := by
  have hsound := sound_of_load h
  have hlength := hsound.times samples hsamples
  obtain ⟨_, hread, hmodel⟩ := bind_eq_ok.mp h
  obtain rfl := Except.ok.inj (hrecording.symm.trans hread)
  obtain ⟨contraction, names, -, -, hstages⟩ := ofRecording_eq_ok_iff.mp hmodel
  cases hstages with
  | bare => cases hsamples
  | @sampled given ordered repaired line count hgiven htimed hrepair =>
    obtain rfl := Option.some.inj hsamples
    have hcount : repaired.length = ordered.length := (of_repair hrepair).1
    have hpos : 0 < ordered.length := hcount ▸ List.length_pos_iff.mpr hne
    obtain ⟨horder, hbounded⟩ := inOrder_of_timed hspan htimed hpos
    have hlast : line.timestamps.getLast? = line.timestamps[ordered.length]? := by
      rw [List.getLast?_eq_getElem?, hlength, hcount, Nat.add_sub_cancel]
    rw [hcount] at hlength ⊢
    refine ⟨hlength, horder.samples, horder.start.trans List.head?_eq_getElem?,
      horder.finish.trans hlast, fun hbound => ?_⟩
    have hpairwise := hbounded hbound
    exact ⟨hpairwise, fun start stop => hsound.exists_forward rfl hpairwise start stop⟩

theorem chronological_nestedCalls :
    ∃ model samples, load nestedCalls false = .ok model ∧ model.samples = some samples ∧
      model.timestamps.length = samples.length + 1 ∧
      (model.timestamps.take samples.length).Pairwise (· ≤ ·) := by
  have hchecked : (do
      let recording ← Recording.ofProfile nestedCalls
      let model ← load nestedCalls false
      return (recording.start.number?, recording.finish.number?,
        model.samples.map List.isEmpty)) = .ok (some 0, some 10, some false) := by
    decide +kernel
  obtain ⟨recording, hrecording, hchecks⟩ := bind_eq_ok.mp hchecked
  obtain ⟨model, hload, hchecks⟩ := bind_eq_ok.mp hchecks
  obtain ⟨hstart, hchecks⟩ := Prod.mk.inj (pure_eq_ok.mp hchecks)
  obtain ⟨hfinish, hempty⟩ := Prod.mk.inj hchecks
  obtain ⟨samples, hsamples, hempty⟩ := Option.map_eq_some_iff.mp hempty
  have hne : samples ≠ [] := fun hnil => by simp [hnil] at hempty
  have hspan : ∀ s f, recording.start.number? = some s → recording.finish.number? = some f →
      s ≤ f := fun s f hs hf => by
    rw [← Option.some.inj (hstart.symm.trans hs), ← Option.some.inj (hfinish.symm.trans hf)]
    decide
  obtain ⟨hlength, hpairwise, -⟩ := chronological_of_load hrecording hspan hload hsamples hne
  exact ⟨model, samples, hload, hsamples, hlength, hpairwise⟩

/-- A profile of which the last sample ends before the first one starts. -/
def earlyBound : Value Rat :=
  .obj [
    ("head", .obj [("id", .int 1), ("children", .list [.obj [("id", .int 2)]])]),
    ("startTime", .int 1),
    ("endTime", .int 2),
    ("timestamps", .list [.int 1000, .int 2000, .int 500]),
    ("samples", .list [.int 2, .int 2])]

/-- **A bound that is recorded is not put in order: the end of the profile then lies before its
start, and a frame is open for less than no time.** -/
theorem replay_earlyBound :
    ∃ model events, load earlyBound false = .ok model ∧ model.timestamps = [1, 2, 1 / 2] ∧
      model.start.number? = some 1 ∧ model.finish.number? = some (1 / 2) ∧
      model.replay .null .null = .ok events ∧ ∃ event ∈ events, ¬ event.Forward := by
  have hchecked : (do
      let model ← load earlyBound false
      let events ← model.replay .null .null
      return (model.timestamps, model.start.number?, model.finish.number?,
        events.any fun event => decide (¬ event.Forward))) =
        .ok ([1, 2, 1 / 2], some 1, some (1 / 2), true) := by
    decide +kernel
  obtain ⟨model, hload, hchecks⟩ := bind_eq_ok.mp hchecked
  obtain ⟨events, hevents, hchecks⟩ := bind_eq_ok.mp hchecks
  obtain ⟨htimes, hchecks⟩ := Prod.mk.inj (pure_eq_ok.mp hchecks)
  obtain ⟨hstart, hchecks⟩ := Prod.mk.inj hchecks
  obtain ⟨hfinish, hany⟩ := Prod.mk.inj hchecks
  obtain ⟨event, hevent, hbackward⟩ := List.any_eq_true.mp hany
  exact ⟨model, events, hload, htimes, hstart, hfinish, hevents, event, hevent,
    of_decide_eq_true hbackward⟩

end Model
end SampledProfile
