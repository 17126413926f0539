/-
# Where the time of a replay goes

A replay never adds up the time of a node.  It reports how long a frame was open and how much of
that was not spent in frames on it, and the reports of one node are spread over the whole run.  Read
exactly they add up to the time during which the node was sampled.

The argument is one of bookkeeping.  A `Meter` adds up what the reports say, and knows at any time
what is still DUE: what the open frames would report if all of them were closed at once.  Closing a
frame takes from what is due as much as it reports, opening one changes nothing, and as time passes
what is due grows at the rate at which the meter runs.  So in the end the meter shows the time during
which it ran (`Meter.read_replayed`).

* `selfMeter` reads the times of one node that are its own, and runs while its frame is innermost;
* `outerMeter` reads the durations of the frames that lie on no other, and runs while any is open;
* `Model.sum_selfTime_eq`: for every window of every profile that is loaded, the own times of a node
  are the times of its samples, and the durations of the outermost frames are those of all samples
  but the root's.
-/
import Mathlib.Algebra.BigOperators.Intervals
import Mathlib.Algebra.Order.Ring.Rat
import Mathlib.Tactic.Ring
import SampledProfile.Proofs.Replay.Brackets
import SampledProfile.Proofs.Replay.Exact

namespace SampledProfile

open Outcome

/-! ## 1. Meters -/

/-- What can be added up from the reports of a replay while time passes. -/
structure Meter where
  /-- What a report adds. -/
  reading : Event Rat → Rat
  /-- What frames that are open at a time would add if all were closed then. -/
  due : Rat → List (OpenFrame Rat) → Rat
  /-- Does the meter run while frames are open in which this runs, the innermost first? -/
  runs : List Activation → Bool
  due_nil : ∀ time, due time [] = 0
  reading_opened : ∀ depth node time, reading (.opened depth node time) = 0
  due_opened : ∀ activation time frames, due time (⟨activation, time, 0⟩ :: frames) = due time frames
  reading_closed : ∀ time (frame : OpenFrame Rat) below,
    reading (.closed below.length frame.activation.node frame.start (time - frame.start)
        (time - frame.start - frame.inner)) + due time (charge (time - frame.start) below) =
      due time (frame :: below)
  due_later : ∀ time later frames, due later frames =
    due time frames + if runs (frames.map OpenFrame.activation) then later - time else 0

namespace Meter

variable (meter : Meter)

/-- What the meter shows after some reports. -/
def read (events : List (Event Rat)) : Rat := (events.map meter.reading).sum

@[simp] theorem read_nil : meter.read [] = 0 := rfl

@[simp] theorem read_cons (event : Event Rat) (events : List (Event Rat)) :
    meter.read (event :: events) = meter.reading event + meter.read events := rfl

@[simp] theorem read_append (events others : List (Event Rat)) :
    meter.read (events ++ others) = meter.read events + meter.read others := by
  rw [read, List.map_append, List.sum_append, read, read]

/-- What is closed is read and no longer due. -/
theorem read_closeMany (time : Rat) : ∀ (count : Nat) (frames : List (OpenFrame Rat)),
    meter.read (closeMany time count frames).1 + meter.due time (closeMany time count frames).2 =
      meter.due time frames
  | 0, frames => by simp [closeMany]
  | _ + 1, [] => by simp [closeMany]
  | count + 1, frame :: below => by
    have hrest := read_closeMany time count (charge (time - frame.start) below)
    rw [← meter.reading_closed time frame below, ← hrest]
    simp only [closeMany, read_cons]
    ring

/-- What is opened is not due yet. -/
theorem read_openMany (time : Rat) : ∀ (activations : List Activation)
    (frames : List (OpenFrame Rat)),
    meter.read (openMany time activations frames).1 = 0 ∧
      meter.due time (openMany time activations frames).2 = meter.due time frames
  | [], _ => ⟨rfl, rfl⟩
  | activation :: rest, frames => by
    obtain ⟨hread, hdue⟩ := read_openMany time rest (⟨activation, time, 0⟩ :: frames)
    simp only [openMany, read_cons, meter.reading_opened, hread, hdue, meter.due_opened, add_zero,
      and_self]

theorem read_change (time : Rat) (old new : List Activation) (frames : List (OpenFrame Rat)) :
    meter.read (change time old new frames).1 + meter.due time (change time old new frames).2 =
      meter.due time frames := by
  have hclosed := meter.read_closeMany time (old.length - shared old new) frames
  obtain ⟨hopened, hdue⟩ := meter.read_openMany time (new.drop (shared old new))
    (closeMany time (old.length - shared old new) frames).2
  simp only [change, read_append, hopened, hdue, add_zero, hclosed]

/-! ## 2. Samples -/

/-- The time at which the first of some samples starts, or the last of those before ends. -/
def nextTime (last : Rat) : List (Nat × Rat) → Rat
  | [] => last
  | sample :: _ => sample.2

/-- How long a meter runs during samples after a history, if the last of them ends at a time. -/
def runningAfter {β : Type} (arena : Arena β Rat) (collector : Option Nat) (last : Rat) :
    List Nat → List (Nat × Rat) → Rat
  | _, [] => 0
  | history, sample :: rest =>
    (if meter.runs (effective arena collector history sample.1).reverse then
        nextTime last rest - sample.2 else 0) +
      runningAfter arena collector last (sample.1 :: history) rest

/-- How long samples of certain nodes run, if the last one ends at a time. -/
def running (counts : Nat → Bool) (last : Rat) : List (Nat × Rat) → Rat
  | [] => 0
  | sample :: rest =>
    (if counts sample.1 then nextTime last rest - sample.2 else 0) + running counts last rest

section Run

variable {β : Type} {arena : Arena β Rat} {collector : Option Nat} {meter}

theorem read_sampled (history : List Nat) (sample : Nat × Rat) (frames : List (OpenFrame Rat)) :
    meter.read (sampled arena collector history sample frames).1 +
        meter.due sample.2 (sampled arena collector history sample frames).2 =
      meter.due sample.2 frames := by
  unfold sampled
  split
  · simp
  · exact meter.read_change sample.2 _ _ frames

/-- **A meter shows what was due at the start and the time during which it ran.** -/
theorem read_replayed_after (last : Rat) (h : arena.WellPlaced) (hroot : collector ≠ some 0) :
    ∀ (stream : List (Nat × Rat)) {history : List Nat} {frames : List (OpenFrame Rat)},
    frames.map OpenFrame.activation = (effectiveOf arena collector history).reverse →
    meter.read (replayed arena collector last history stream frames) =
      meter.due (nextTime last stream) frames + meter.runningAfter arena collector last history stream
  | [], history, frames, hframes => by
    have hlength : frames.length = (effectiveOf arena collector history).length := by
      simpa using congrArg List.length hframes
    have hall : (closeMany last (effectiveOf arena collector history).length frames).2 = [] := by
      rw [← List.length_eq_zero_iff, length_closeMany, hlength, Nat.sub_self]
    have hclosed := meter.read_closeMany last (effectiveOf arena collector history).length frames
    rw [hall, meter.due_nil, add_zero] at hclosed
    simpa [replayed, runningAfter, nextTime] using hclosed
  | sample :: rest, history, frames, hframes => by
    have hnext := map_activation_sampled h hroot sample hframes
    have hrest := read_replayed_after last h hroot rest hnext
    have hsampled : meter.read (sampled arena collector history sample frames).1 +
        meter.due sample.2 (sampled arena collector history sample frames).2 =
          meter.due sample.2 frames := read_sampled history sample frames
    -- up to the next sample the frames of this one are open
    have hlater := meter.due_later sample.2 (nextTime last rest)
      (sampled arena collector history sample frames).2
    rw [hnext, effectiveOf] at hlater
    rw [replayed, read_append, hrest, hlater, nextTime, ← hsampled, runningAfter]
    ring

/-- Where it is a matter of the sampled nodes alone whether a meter runs, so is how long. -/
theorem runningAfter_eq_running (last : Rat) {counts : Nat → Bool} :
    ∀ (stream : List (Nat × Rat)) (history : List Nat),
    (∀ sample ∈ stream, ∀ before, meter.runs
      (effective arena collector before sample.1).reverse = counts sample.1) →
    meter.runningAfter arena collector last history stream = running counts last stream
  | [], _, _ => rfl
  | sample :: rest, history, hruns => by
    obtain ⟨hsample, hrest⟩ := List.forall_mem_cons.mp hruns
    rw [runningAfter, running, hsample history, runningAfter_eq_running last rest _ hrest]

/-- So the meter shows how long these nodes were sampled. -/
theorem read_replayed (last : Rat) (h : arena.WellPlaced) (hroot : collector ≠ some 0)
    {counts : Nat → Bool} (stream : List (Nat × Rat)) {history : List Nat}
    {frames : List (OpenFrame Rat)}
    (hruns : ∀ sample ∈ stream, ∀ before, meter.runs
      (effective arena collector before sample.1).reverse = counts sample.1)
    (hframes : frames.map OpenFrame.activation = (effectiveOf arena collector history).reverse) :
    meter.read (replayed arena collector last history stream frames) =
      meter.due (nextTime last stream) frames + running counts last stream := by
  rw [read_replayed_after last h hroot stream hframes,
    runningAfter_eq_running last stream history hruns]

end Run
end Meter

/-! ## 3. Own times and outermost frames -/

namespace Event

/-- What a report says of the time that is a node's own. -/
def selfTime (node : Nat) : Event Rat → Rat
  | .opened .. => 0
  | .closed _ other _ _ self => if other = node then self else 0

/-- What a report says of how long a frame at a depth was open. -/
def durationAt (depth : Nat) : Event Rat → Rat
  | .opened .. => 0
  | .closed other _ _ duration _ => if other = depth then duration else 0

end Event

/-- What open frames of a node have had for themselves up to a time.  A frame that has another one
on it is charged with that only up to when it opened; the rest is charged when it closes. -/
def selfDue (node : Nat) : Rat → List (OpenFrame Rat) → Rat
  | _, [] => 0
  | time, frame :: below =>
    (if frame.activation.node = node then time - frame.start - frame.inner else 0) +
      selfDue node frame.start below

/-- The times that are a node's own. -/
def selfMeter (node : Nat) : Meter where
  reading := Event.selfTime node
  due := selfDue node
  runs activations := activations.head?.any fun activation => activation.node = node
  due_nil time := by rw [selfDue]
  reading_opened _ _ _ := rfl
  due_opened activation time frames := by
    by_cases h : activation.node = node <;> simp [selfDue, h]
  reading_closed time frame below := by
    cases below with
    | nil => simp [Event.selfTime, charge, selfDue]
    | cons next rest =>
      simp only [Event.selfTime, charge, selfDue]
      split <;> split <;> ring
  due_later time later frames := by
    cases frames with
    | nil => simp [selfDue]
    | cons frame below =>
      by_cases h : frame.activation.node = node
      · simp [selfDue, h]
        ring
      · simp [selfDue, h]

theorem getLast?_charge (duration : Rat) (frames : List (OpenFrame Rat)) :
    (charge duration frames).getLast?.map OpenFrame.start = frames.getLast?.map OpenFrame.start := by
  cases frames with
  | nil => rfl
  | cons frame below => cases below <;> rfl

/-- How long the frame that lies on no other has been open at a time. -/
def outerDue (time : Rat) (frames : List (OpenFrame Rat)) : Rat :=
  (frames.getLast?.map OpenFrame.start).elim 0 fun start => time - start

/-- The durations of the frames that lie on no other. -/
def outerMeter : Meter where
  reading := Event.durationAt 0
  due := outerDue
  runs activations := !activations.isEmpty
  due_nil _ := rfl
  reading_opened _ _ _ := rfl
  due_opened activation time frames := by
    cases frames with
    | nil => simp [outerDue]
    | cons frame below => simp [outerDue, List.getLast?_cons_cons]
  reading_closed time frame below := by
    rw [outerDue, getLast?_charge]
    cases below with
    | nil => simp [Event.durationAt, outerDue]
    | cons next rest => simp [Event.durationAt, outerDue, List.getLast?_cons_cons]
  due_later time later frames := by
    cases hlast : frames.getLast? with
    | none => simp [outerDue, List.getLast?_eq_none_iff.mp hlast]
    | some frame =>
      have hne : frames ≠ [] := fun hnil => by simp [hnil] at hlast
      simp [outerDue, hlast, hne]

/-! ## 4. Which frames are open during a sample -/

section Innermost

variable {β : Type} {arena : Arena β Rat} {collector : Option Nat}

/-- The innermost frame during a sample is one of its node; during a sample of the root there is
none. -/
theorem head?_effective (h : arena.WellPlaced) (hroot : collector ≠ some 0) (history : List Nat)
    {node : Nat} (hnode : node < arena.size) :
    (effective arena collector history node).reverse.head?.map Activation.node =
      if node = 0 then none else some node := by
  rw [effective_eq h]
  by_cases hcollector : collector = some node
  · have hne : node ≠ 0 := fun hzero => hroot (hzero ▸ hcollector)
    simp [hcollector, hne, Activation.node]
  · rw [if_neg hcollector]
    by_cases hzero : node = 0
    · simp [hzero, callsOf, h.path_root]
    · obtain ⟨above, -, -, -, hpath⟩ := h.exists_parent hnode (Nat.pos_of_ne_zero hzero)
      simp [hzero, callsOf, hpath, Activation.node]

theorem runs_selfMeter (h : arena.WellPlaced) (hroot : collector ≠ some 0) (history : List Nat)
    {sampled node : Nat} (hsampled : sampled < arena.size) (hnode : node ≠ 0) :
    (selfMeter node).runs (effective arena collector history sampled).reverse =
      decide (sampled = node) := by
  have hhead := head?_effective h hroot history hsampled
  have hruns : (selfMeter node).runs (effective arena collector history sampled).reverse =
      ((effective arena collector history sampled).reverse.head?.map Activation.node).any
        (· = node) := by
    rw [Option.any_map]
    rfl
  rw [hruns, hhead]
  by_cases hzero : sampled = 0
  · simp [hzero, hnode.symm]
  · simp [hzero]

theorem runs_outerMeter (h : arena.WellPlaced) (hroot : collector ≠ some 0) (history : List Nat)
    {sampled : Nat} (hsampled : sampled < arena.size) :
    outerMeter.runs (effective arena collector history sampled).reverse =
      decide (sampled ≠ 0) := by
  have hhead := head?_effective h hroot history hsampled
  show (!(effective arena collector history sampled).reverse.isEmpty) = _
  cases hstack : (effective arena collector history sampled).reverse with
  | nil =>
    rw [hstack] at hhead
    by_cases hzero : sampled = 0
    · simp [hzero]
    · simp [hzero] at hhead
  | cons activation rest =>
    rw [hstack] at hhead
    by_cases hzero : sampled = 0
    · simp [hzero] at hhead
    · simp [hzero]

end Innermost

/-! ## 5. Samples by their indices -/

/-- How long the samples of a slice run whose nodes count. -/
theorem running_slice {counts : Nat → Bool} {nodes : List Nat} {times : List Rat}
    (htimes : times.length = nodes.length + 1) {stop : Nat} (hstop : stop ≤ nodes.length) :
    ∀ (length first : Nat), first + length = stop →
      Meter.running counts (times.getD stop 0) (((nodes.zip times).take stop).drop first) =
        ∑ index ∈ Finset.Ico first stop with nodes[index]?.any counts,
          (times.getD (index + 1) 0 - times.getD index 0)
  | 0, first, hsum => by
    obtain rfl : first = stop := by omega
    rw [List.drop_eq_nil_of_le (by rw [List.length_take]; omega)]
    simp [Meter.running]
  | length + 1, first, hsum => by
    have hslice : first < ((nodes.zip times).take stop).length := by
      rw [List.length_take, List.length_zip]
      omega
    have hnext : Meter.nextTime (times.getD stop 0)
        (((nodes.zip times).take stop).drop (first + 1)) = times.getD (first + 1) 0 := by
      rcases Nat.eq_or_lt_of_le (show first + 1 ≤ stop by omega) with heq | hlt
      · rw [List.drop_eq_nil_of_le (by rw [List.length_take]; omega), Meter.nextTime, heq]
      · rw [List.drop_eq_getElem_cons (by rw [List.length_take, List.length_zip]; omega)]
        simp only [Meter.nextTime, List.getElem_take, List.getElem_zip]
        exact List.getElem_eq_getD 0
    have hrest : Meter.running counts (times.getD stop 0)
        (((nodes.zip times).take stop).drop (first + 1)) = _ :=
      running_slice htimes hstop length (first + 1) (by omega)
    rw [List.drop_eq_getElem_cons hslice, Meter.running, hnext, hrest, Finset.sum_filter,
      Finset.sum_filter, Finset.sum_eq_sum_Ico_succ_bot (show first < stop by omega)]
    simp only [List.getElem_take, List.getElem_zip]
    rw [List.getElem?_eq_getElem (by omega), Option.any_some,
      List.getElem_eq_getD (l := times) 0]

/-! ## 6. Loaded models -/

namespace Model

variable {model : Model Rat}

/-- How long the sample at an index runs. -/
def lasting (model : Model Rat) (index : Nat) : Rat :=
  model.timestamps.getD (index + 1) 0 - model.timestamps.getD index 0

/-- In the replay of a window a meter shows the time of the samples during which it runs. -/
theorem Sound.read_replayed (h : model.Sound) {samples : List (Value Rat)}
    (hsamples : model.samples = some samples) {nodes : List Nat}
    (hnodes : samples.mapM (requirePosition model.names) = .ok nodes)
    (hlt : ∀ node ∈ nodes, node < model.arena.size) (start stop : Option Rat) {last : Rat}
    (hlast : model.timestamps[model.stopIndex samples.length start stop]? = some last)
    (meter : Meter) {counts : Nat → Bool}
    (hruns : ∀ history, ∀ node < model.arena.size, meter.runs
      (effective model.arena model.system.collector history node).reverse = counts node) :
    meter.read (replayed model.arena model.system.collector last []
        (model.streamOf nodes start stop) []) =
      ∑ index ∈ Finset.Ico (model.firstIndex start) (model.stopIndex samples.length start stop)
        with nodes[index]?.any counts, model.lasting index := by
  have hcount : nodes.length = samples.length := length_of_mapM hnodes
  have hstop : model.stopIndex samples.length start stop ≤ nodes.length :=
    hcount ▸ stopIndex_le model samples start stop
  have htimes : model.timestamps.length = nodes.length + 1 := hcount ▸ h.times samples hsamples
  have hstream : ∀ sample ∈ model.streamOf nodes start stop, sample.1 < model.arena.size :=
    fun sample hsample => hlt _ (List.of_mem_zip
      (List.mem_of_mem_take (List.mem_of_mem_drop hsample))).1
  have hread : meter.read (replayed model.arena model.system.collector last []
        (model.streamOf nodes start stop) []) =
      meter.due (Meter.nextTime last (model.streamOf nodes start stop)) [] +
        Meter.running counts last (model.streamOf nodes start stop) :=
    Meter.read_replayed last h.wellPlaced h.collector_ne_zero (model.streamOf nodes start stop)
      (fun sample hsample before => hruns before sample.1 (hstream sample hsample)) rfl
  have hend : last = model.timestamps.getD (model.stopIndex samples.length start stop) 0 := by
    rw [List.getD_eq_getElem?_getD, hlast, Option.getD_some]
  rw [hread, meter.due_nil, zero_add, hend, streamOf, hcount]
  by_cases hwithin : model.firstIndex start ≤ model.stopIndex samples.length start stop
  · exact running_slice htimes hstop _ _ (Nat.add_sub_cancel' hwithin)
  · -- the window is empty
    rw [List.drop_eq_nil_of_le (by rw [List.length_take]; omega), Meter.running,
      Finset.Ico_eq_empty_of_le (by omega)]
    rfl

/-- **In the replay of a window the own times of a node other than the root add up to the times of
its samples, and the durations of the outermost frames to those of all samples that are not of the
root.** -/
theorem sum_selfTime_eq {profile : Value Rat} {keepNatives : Bool}
    (h : load profile keepNatives = .ok model) {samples : List (Value Rat)}
    (hsamples : model.samples = some samples) (start stop : Option Rat) :
    ∃ nodes events, samples.mapM (requirePosition model.names) = .ok nodes ∧
      model.replay (.ofOption (start.map .num)) (.ofOption (stop.map .num)) = .ok events ∧
      (∀ scratch : Scratch Rat, model.scratchSize ≤ scratch.starts.size →
        model.scratchSize ≤ scratch.inner.size →
        ∃ left, model.replayWith scratch (.ofOption (start.map .num)) (.ofOption (stop.map .num)) =
          .ok (left, events)) ∧
      (∀ node, node ≠ 0 → (events.map (Event.selfTime node)).sum =
        ∑ index ∈ Finset.Ico (model.firstIndex start)
            (model.stopIndex samples.length start stop) with nodes[index]? = some node,
          model.lasting index) ∧
      (events.map (Event.durationAt 0)).sum =
        ∑ index ∈ Finset.Ico (model.firstIndex start)
            (model.stopIndex samples.length start stop) with nodes[index]? ≠ some 0,
          model.lasting index := by
  have hsound := sound_of_load h
  obtain ⟨nodes, last, hnodes, hlt, hlast, hreplay, hscratch⟩ :=
    hsound.exists_replay hsamples start stop
  refine ⟨nodes, _, hnodes, hreplay, hscratch, fun node hnode => ?_, ?_⟩
  · have hread := hsound.read_replayed hsamples hnodes hlt start stop hlast (selfMeter node)
      fun history sampled hsampled =>
        runs_selfMeter hsound.wellPlaced hsound.collector_ne_zero history hsampled hnode
    refine Eq.trans hread (Finset.sum_congr (Finset.filter_congr fun index _ => ?_) fun _ _ => rfl)
    simp [Option.any_eq_true]
  · have hread := hsound.read_replayed hsamples hnodes hlt start stop hlast outerMeter
      fun history sampled hsampled =>
        runs_outerMeter hsound.wellPlaced hsound.collector_ne_zero history hsampled
    refine Eq.trans hread (Finset.sum_congr (Finset.filter_congr fun index hindex => ?_)
      fun _ _ => rfl)
    have hb := stopIndex_le model samples start stop
    have hindex : index < nodes.length := by
      rw [length_of_mapM hnodes]
      exact (Finset.mem_Ico.mp hindex).2.trans_le hb
    simp [List.getElem?_eq_getElem hindex]

/-- A profile of two nodes and the garbage collection, with samples that are out of order. -/
def nestedCalls : Value Rat :=
  .obj [
    ("nodes", .list [
      .obj [("id", .int 1), ("children", .list [.int 2, .int 4]), ("functionName", .str "(root)")],
      .obj [("id", .int 2), ("children", .list [.int 3])],
      .obj [("id", .int 3)],
      .obj [("id", .int 4), ("functionName", .str collectorName)]]),
    ("samples", .list [.int 2, .int 3, .int 4, .int 2, .int 1]),
    ("timeDeltas", .list [.int 1000, .int 1000, .int 3000, .int (-1000), .int 5000]),
    ("endTime", .int 10000)]

theorem sum_selfTime_eq_nestedCalls :
    ∃ model samples nodes events, load nestedCalls false = .ok model ∧
      model.samples = some samples ∧
      samples.mapM (requirePosition model.names) = .ok nodes ∧
      model.replay .null .null = .ok events ∧
      (events.map (Event.selfTime 1)).sum =
        ∑ index ∈ Finset.Ico (model.firstIndex none) (model.stopIndex samples.length none none)
          with nodes[index]? = some 1, model.lasting index := by
  have hchecked : (do
      let model ← load nestedCalls false
      return model.samples.isSome) = .ok true := by
    decide +kernel
  obtain ⟨model, hload, hsome⟩ := bind_eq_ok.mp hchecked
  obtain ⟨samples, hsamples⟩ := Option.isSome_iff_exists.mp (pure_eq_ok.mp hsome)
  obtain ⟨nodes, events, hnodes, hreplay, -, hself, -⟩ :=
    sum_selfTime_eq hload hsamples none none
  exact ⟨model, samples, nodes, events, hload, hsamples, hnodes, hreplay, hself 1 one_ne_zero⟩

end Model
end SampledProfile
