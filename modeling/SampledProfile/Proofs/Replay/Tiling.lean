/-
# Adjacent windows tile

A window that is cut in two closes every open frame at the cut, and opens the frames of the next
sample anew.  Neither does anything to how long the frames of a node are open in all, if the sample
behind the cut does not depend on what was sampled before it, which only a collection does
(`Model.sum_durationOf_tiles`).

How long the frames of a node are open is read depth by depth (`levelMeter`), because a node may
have two of them: one on its path and one of a collection.  How long a meter runs during some
samples depends on what came before them only until there is a call
(`Meter.runningAfter_of_call`), and a window from one time to a third is the window to a second and
the window from there, one after the other (`Model.streamOf_append`).
-/
import Mathlib.Algebra.BigOperators.Intervals
import Mathlib.Algebra.Order.Ring.Rat
import Mathlib.Tactic.Ring
import SampledProfile.Proofs.Replay.CutOut
import SampledProfile.Proofs.Replay.Outermost
import SampledProfile.Proofs.Replay.SelfTime

namespace SampledProfile

open Outcome

/-! ## 1. Samples one after the other -/

namespace Meter

variable {β : Type} {arena : Arena β Rat} {collector : Option Nat} (meter : Meter)

theorem nextTime_append (last : Rat) (first second : List (Nat × Rat)) :
    nextTime last (first ++ second) = nextTime (nextTime last second) first := by
  cases first <;> rfl

/-- A meter runs during some samples, and then during others. -/
theorem runningAfter_append (last : Rat) : ∀ (first second : List (Nat × Rat))
    (history : List Nat),
    meter.runningAfter arena collector last history (first ++ second) =
      meter.runningAfter arena collector (nextTime last second) history first +
        meter.runningAfter arena collector last ((first.map Prod.fst).reverse ++ history) second
  | [], second, history => by simp [runningAfter]
  | sample :: rest, second, history => by
    rw [List.cons_append, runningAfter, runningAfter, runningAfter_append last rest second,
      nextTime_append, List.map_cons, List.reverse_cons, List.append_assoc, List.singleton_append]
    ring

/-- Of a history only the last call matters. -/
theorem runningAfter_congr (last : Rat) : ∀ (stream : List (Nat × Rat)) {history other : List Nat},
    lastCall collector history = lastCall collector other →
    meter.runningAfter arena collector last history stream =
      meter.runningAfter arena collector last other stream
  | [], _, _, _ => rfl
  | sample :: rest, history, other, hlast => by
    have hstack : effective arena collector history sample.1 =
        effective arena collector other sample.1 := by
      unfold effective
      rw [hlast]
    have hnext : lastCall collector (sample.1 :: history) =
        lastCall collector (sample.1 :: other) := by
      unfold lastCall at hlast ⊢
      rw [List.find?_cons, List.find?_cons, hlast]
    rw [runningAfter, runningAfter, hstack, runningAfter_congr last rest hnext]

/-- Samples that begin with a call may come after anything. -/
theorem runningAfter_of_call (last : Rat) {stream : List (Nat × Rat)}
    (hcall : ∀ sample, stream.head? = some sample → collector ≠ some sample.1)
    (history other : List Nat) :
    meter.runningAfter arena collector last history stream =
      meter.runningAfter arena collector last other stream := by
  cases stream with
  | nil => rfl
  | cons sample rest =>
    have hne := hcall sample rfl
    have hlast : ∀ before : List Nat, lastCall collector (sample.1 :: before) = some sample.1 := by
      intro before
      simp [lastCall, hne]
    have hrest : meter.runningAfter arena collector last (sample.1 :: history) rest =
        meter.runningAfter arena collector last (sample.1 :: other) rest :=
      meter.runningAfter_congr last rest ((hlast history).trans (hlast other).symm)
    simp only [runningAfter, effective, if_neg hne, hrest]

/-- **A replay that is cut before a call has the readings of its parts.** -/
theorem read_replayed_append (h : arena.WellPlaced) (hroot : collector ≠ some 0) (last : Rat)
    (first second : List (Nat × Rat))
    (hcall : ∀ sample, second.head? = some sample → collector ≠ some sample.1) :
    meter.read (replayed arena collector last [] (first ++ second) []) =
      meter.read (replayed arena collector (nextTime last second) [] first []) +
        meter.read (replayed arena collector last [] second []) := by
  have hread : ∀ (last : Rat) (stream : List (Nat × Rat)),
      meter.read (replayed arena collector last [] stream []) =
        meter.runningAfter arena collector last [] stream := by
    intro last stream
    rw [read_replayed_after last h hroot stream rfl, meter.due_nil, zero_add]
  rw [hread, hread, hread, runningAfter_append,
    meter.runningAfter_of_call last hcall ((first.map Prod.fst).reverse ++ []) []]

end Meter

/-! ## 2. Durations by depth -/

namespace Event

/-- What a report says of how long frames of a node were open. -/
def durationOf (node : Nat) : Event Rat → Rat
  | .opened .. => 0
  | .closed _ other _ duration _ => if other = node then duration else 0

/-- The same of those at a depth. -/
def durationIn (depth node : Nat) : Event Rat → Rat
  | .opened .. => 0
  | .closed level other _ duration _ => if level = depth ∧ other = node then duration else 0

/-- A report is of one depth. -/
theorem sum_durationIn {event : Event Rat} {most : Nat} (h : event.depth < most) (node : Nat) :
    ∑ depth ∈ Finset.range most, event.durationIn depth node = event.durationOf node := by
  cases event with
  | opened depth other time => simp [durationIn, durationOf]
  | closed level other start duration self =>
    have hlevel : level ∈ Finset.range most := Finset.mem_range.mpr h
    by_cases hnode : other = node
    · simp [durationIn, durationOf, hnode, hlevel]
    · simp [durationIn, durationOf, hnode]

end Event

/-- All depths together. -/
theorem sum_range_durationIn {most : Nat} (node : Nat) : ∀ {events : List (Event Rat)},
    (∀ event ∈ events, event.depth < most) →
    ∑ depth ∈ Finset.range most, (events.map (Event.durationIn depth node)).sum =
      (events.map (Event.durationOf node)).sum
  | [], _ => by simp
  | event :: rest, h => by
    obtain ⟨hfirst, hrest⟩ := List.forall_mem_cons.mp h
    simp only [List.map_cons, List.sum_cons, Finset.sum_add_distrib]
    rw [Event.sum_durationIn hfirst, sum_range_durationIn node hrest]

/-- Some depth is beyond those of all reports. -/
theorem exists_depth_lt {α : Type} : ∀ events : List (Event α),
    ∃ most, ∀ event ∈ events, event.depth < most
  | [] => ⟨0, by simp⟩
  | event :: rest => by
    obtain ⟨most, hmost⟩ := exists_depth_lt rest
    refine ⟨max (event.depth + 1) most, List.forall_mem_cons.mpr ⟨by omega, fun other hother => ?_⟩⟩
    have hlt := hmost other hother
    omega

/-- Of each open frame the node and when it opened, the outermost first. -/
def openings (frames : List (OpenFrame Rat)) : List (Nat × Rat) :=
  (frames.map fun frame => (frame.activation.node, frame.start)).reverse

theorem openings_charge (duration : Rat) (frames : List (OpenFrame Rat)) :
    openings (charge duration frames) = openings frames := by
  cases frames <;> rfl

theorem openings_cons (frame : OpenFrame Rat) (frames : List (OpenFrame Rat)) :
    openings (frame :: frames) = openings frames ++ [(frame.activation.node, frame.start)] := by
  simp [openings]

theorem length_openings (frames : List (OpenFrame Rat)) :
    (openings frames).length = frames.length := by
  simp [openings]

/-- How long the frame at a depth has been open at a time, if it is one of a node. -/
def levelDue (depth node : Nat) (time : Rat) (frames : List (OpenFrame Rat)) : Rat :=
  (openings frames)[depth]?.elim 0 fun opening =>
    if opening.1 = node then time - opening.2 else 0

theorem levelDue_cons (depth node : Nat) (time : Rat) (frame : OpenFrame Rat)
    (frames : List (OpenFrame Rat)) :
    levelDue depth node time (frame :: frames) =
      (if frames.length = depth ∧ frame.activation.node = node then time - frame.start else 0) +
        levelDue depth node time frames := by
  rw [levelDue, levelDue, openings_cons]
  rcases Nat.lt_trichotomy depth frames.length with hlt | heq | hgt
  · rw [List.getElem?_append_left (hlt.trans_eq (length_openings frames).symm)]
    simp [Nat.ne_of_gt hlt]
  · subst heq
    simp [length_openings]
  · have hnone : (openings frames)[depth]? = none := by
      rw [List.getElem?_eq_none_iff, length_openings]
      omega
    have hlonger : (openings frames ++ [(frame.activation.node, frame.start)])[depth]? = none := by
      rw [List.getElem?_eq_none_iff, List.length_append, length_openings, List.length_singleton]
      omega
    rw [hnone, hlonger]
    simp [Nat.ne_of_lt hgt]

/-- The durations of the frames of a node at a depth. -/
def levelMeter (depth node : Nat) : Meter where
  reading := Event.durationIn depth node
  due := levelDue depth node
  runs activations := (activations.reverse.map Activation.node)[depth]? = some node
  due_nil _ := rfl
  reading_opened _ _ _ := rfl
  due_opened activation time frames := by simp [levelDue_cons]
  reading_closed time frame below := by
    have hbelow : levelDue depth node time (charge (time - frame.start) below) =
        levelDue depth node time below := by
      rw [levelDue, openings_charge, levelDue]
    rw [levelDue_cons, hbelow]
    rfl
  due_later time later frames := by
    have hnodes : (frames.map OpenFrame.activation).reverse.map Activation.node =
        (openings frames).map Prod.fst := by
      simp [openings, List.map_reverse, Function.comp_def]
    rw [hnodes, List.getElem?_map, levelDue, levelDue]
    cases (openings frames)[depth]? with
    | none => simp
    | some opening =>
      by_cases h : opening.1 = node
      · simp [h]
      · simp [h]

/-- **A replay that is cut before a call has the frames of a node open as long as its parts.** -/
theorem sum_durationOf_replayed {β : Type} {arena : Arena β Rat} {collector : Option Nat}
    (h : arena.WellPlaced) (hroot : collector ≠ some 0) (last : Rat)
    (first second : List (Nat × Rat))
    (hcall : ∀ sample, second.head? = some sample → collector ≠ some sample.1) (node : Nat) :
    ((replayed arena collector last [] (first ++ second) []).map (Event.durationOf node)).sum =
      ((replayed arena collector (Meter.nextTime last second) [] first []).map
          (Event.durationOf node)).sum +
        ((replayed arena collector last [] second []).map (Event.durationOf node)).sum := by
  obtain ⟨most, hmost⟩ := exists_depth_lt
    (replayed arena collector last [] (first ++ second) [] ++
      (replayed arena collector (Meter.nextTime last second) [] first [] ++
        replayed arena collector last [] second []))
  obtain ⟨hwhole, hparts⟩ := List.forall_mem_append.mp hmost
  obtain ⟨hfirst, hsecond⟩ := List.forall_mem_append.mp hparts
  rw [← sum_range_durationIn node hwhole, ← sum_range_durationIn node hfirst,
    ← sum_range_durationIn node hsecond, ← Finset.sum_add_distrib]
  refine Finset.sum_congr rfl fun depth _ => ?_
  exact (levelMeter depth node).read_replayed_append h hroot last first second hcall

/-! ## 3. Cutting a window -/

section Slices

variable {γ : Type} {xs : List γ} {first middle last : Nat}

/-- A slice is made of two that meet. -/
theorem slice_append (hfirst : first ≤ middle) (hlast : middle ≤ last) :
    (xs.take last).drop first = (xs.take middle).drop first ++ (xs.take last).drop middle := by
  have hparts : last - first = (middle - first) + (last - middle) := by omega
  rw [List.drop_take, List.drop_take, List.drop_take, hparts, List.take_add, List.drop_drop,
    Nat.add_sub_cancel' hfirst]

theorem take_min {count : Nat} (h : xs.length ≤ count) (last : Nat) :
    xs.take (min count last) = xs.take last := by
  rw [← List.take_take, List.take_of_length_le]
  exact (List.length_take_le' _ _).trans h

/-- A slice begins where it starts, if it has anything. -/
theorem head?_slice (xs : List γ) (first last : Nat) :
    ((xs.take last).drop first).head? = if first < last then xs[first]? else none := by
  rw [List.head?_drop, List.getElem?_take]

end Slices

theorem Meter.nextTime_eq (last : Rat) (stream : List (Nat × Rat)) :
    nextTime last stream = (stream.head?.map Prod.snd).getD last := by
  cases stream <;> rfl

namespace Model

variable {model : Model Rat} {p q r : Rat}

theorem ge_iff {a b : Rat} : Scalar.ge a b = true ↔ b ≤ a := by
  rw [Scalar.ge, Magnitude.ge_eq_not_lt rfl rfl]
  simp [Scalar.exact, Magnitude.lt]

theorem isBound_rat (bound : Option Rat) : IsBound bound := fun _ _ => rfl

theorem ascending_of_pairwise {times : List Rat} (h : times.Pairwise (· ≤ ·)) :
    Ascending times := ⟨fun _ _ => rfl, h.imp ge_iff.mpr⟩

/-- A window starts behind the times that are below its start. -/
theorem lt_firstIndex_iff (htimes : model.timestamps.Pairwise (· ≤ ·)) (time : Rat) {index : Nat}
    {other : Rat} (hother : model.timestamps[index]? = some other) :
    index < model.firstIndex (some time) ↔ other < time := by
  have hge := firstIndex_le_iff (ascending_of_pairwise htimes) (isBound_rat (some time)) hother
  rw [← Nat.not_le, hge, ← not_le, ← ge_iff]
  simp

/-- A later window does not start earlier. -/
theorem firstIndex_mono (htimes : model.timestamps.Pairwise (· ≤ ·)) (hpq : p ≤ q) :
    model.firstIndex (some p) ≤ model.firstIndex (some q) := by
  have hdefined : (Scalar.exact p).isDefined = true := rfl
  obtain ⟨turn, hle, hturn⟩ := (ascending_of_pairwise htimes).exists_turn hdefined
  have hfirst : model.firstIndex (some p) = turn := firstFrom_eq hle hturn
  by_contra hlt
  have hindex : model.firstIndex (some q) < model.timestamps.length := by omega
  have htime := List.getElem?_eq_getElem hindex
  have hbelow := (lt_firstIndex_iff htimes p htime).mp (by omega)
  exact Nat.lt_irrefl _ ((lt_firstIndex_iff htimes q htime).mpr (hbelow.trans_le hpq))

/-- A window stops where a window from its stop on would start. -/
theorem stopIndex_eq_firstIndex (htimes : model.timestamps.Pairwise (· ≤ ·)) {count : Nat}
    (hcount : model.timestamps.length = count + 1) (hpq : p ≤ q) :
    model.stopIndex count (some p) (some q) = min count (model.firstIndex (some q)) := by
  have hturn : ∀ index time, model.timestamps[index]? = some time →
      (stopsAt (some q) time = true ↔ model.firstIndex (some q) ≤ index) := by
    intro index time htime
    rw [firstIndex_le_iff (ascending_of_pairwise htimes) (isBound_rat (some q)) htime]
    show Scalar.ge time q = true ↔ _
    simp
  have hle := firstIndex_mono htimes hpq
  rw [stopIndex_eq hcount hturn (some p)]
  omega

theorem streamOf_eq_slice (htimes : model.timestamps.Pairwise (· ≤ ·)) {nodes : List Nat}
    (hcount : model.timestamps.length = nodes.length + 1) (hpq : p ≤ q) :
    model.streamOf nodes (some p) (some q) =
      ((nodes.zip model.timestamps).take (model.firstIndex (some q))).drop
        (model.firstIndex (some p)) := by
  rw [streamOf, stopIndex_eq_firstIndex htimes hcount hpq, take_min]
  rw [List.length_zip]
  omega

/-- **A window is the windows up to a time in it and from there on, one after the other.** -/
theorem streamOf_append (htimes : model.timestamps.Pairwise (· ≤ ·)) {nodes : List Nat}
    (hcount : model.timestamps.length = nodes.length + 1) (hpq : p ≤ q) (hqr : q ≤ r) :
    model.streamOf nodes (some p) (some r) =
      model.streamOf nodes (some p) (some q) ++ model.streamOf nodes (some q) (some r) := by
  rw [streamOf_eq_slice htimes hcount (hpq.trans hqr), streamOf_eq_slice htimes hcount hpq,
    streamOf_eq_slice htimes hcount hqr]
  exact slice_append (firstIndex_mono htimes hpq) (firstIndex_mono htimes hqr)

/-- What the second of these windows starts with. -/
theorem head?_streamOf (htimes : model.timestamps.Pairwise (· ≤ ·)) {nodes : List Nat}
    (hcount : model.timestamps.length = nodes.length + 1) (hqr : q ≤ r) {sample : Nat × Rat}
    (hsample : (model.streamOf nodes (some q) (some r)).head? = some sample) :
    nodes[model.firstIndex (some q)]? = some sample.1 ∧
      model.timestamps[model.firstIndex (some q)]? = some sample.2 ∧
      model.firstIndex (some q) < model.firstIndex (some r) := by
  rw [streamOf_eq_slice htimes hcount hqr, head?_slice] at hsample
  split at hsample
  · rename_i hlt
    obtain ⟨hnode, htime⟩ := List.getElem?_zip_eq_some.mp hsample
    exact ⟨hnode, htime, hlt⟩
  · cases hsample

/-- The first of these windows ends where the second one starts, or where both end. -/
theorem nextTime_streamOf (htimes : model.timestamps.Pairwise (· ≤ ·)) {nodes : List Nat}
    (hcount : model.timestamps.length = nodes.length + 1) (hpq : p ≤ q) (hqr : q ≤ r)
    {first last : Rat}
    (hfirst : model.timestamps[model.stopIndex nodes.length (some p) (some q)]? = some first)
    (hlast : model.timestamps[model.stopIndex nodes.length (some q) (some r)]? = some last) :
    Meter.nextTime last (model.streamOf nodes (some q) (some r)) = first := by
  rw [stopIndex_eq_firstIndex htimes hcount hpq] at hfirst
  rw [stopIndex_eq_firstIndex htimes hcount hqr] at hlast
  rw [Meter.nextTime_eq]
  cases hhead : (model.streamOf nodes (some q) (some r)).head? with
  | some sample =>
    obtain ⟨hnode, htime, -⟩ := head?_streamOf htimes hcount hqr hhead
    have hlt := (List.getElem?_eq_some_iff.mp hnode).1
    rw [Nat.min_eq_right hlt.le, htime] at hfirst
    exact Option.some.inj hfirst
  | none =>
    -- the second window is empty: both end at the same place
    have hmono := firstIndex_mono htimes hqr
    have hsame : min nodes.length (model.firstIndex (some q)) =
        min nodes.length (model.firstIndex (some r)) := by
      rw [streamOf_eq_slice htimes hcount hqr, List.head?_eq_none_iff, List.drop_eq_nil_iff,
        List.length_take, List.length_zip] at hhead
      omega
    rw [hsame, hlast] at hfirst
    exact Option.some.inj hfirst

/-! ## 4. Loaded models -/

/-- The first sample at or after a time, if it comes before another one, is no collection. -/
def StartsWithCall (model : Model Rat) (nodes : List Nat) (time before : Rat) : Prop :=
  ∀ (index node : Nat) (start : Rat), nodes[index]? = some node →
    model.timestamps[index]? = some start → time ≤ start → start < before →
    (∀ earlier < index, ∀ other, model.timestamps[earlier]? = some other → other < time) →
    model.system.collector ≠ some node

theorem StartsWithCall.head? (htimes : model.timestamps.Pairwise (· ≤ ·)) {nodes : List Nat}
    (hcount : model.timestamps.length = nodes.length + 1) (hqr : q ≤ r)
    (h : model.StartsWithCall nodes q r) {sample : Nat × Rat}
    (hsample : (model.streamOf nodes (some q) (some r)).head? = some sample) :
    model.system.collector ≠ some sample.1 := by
  obtain ⟨hnode, htime, hlt⟩ := head?_streamOf htimes hcount hqr hsample
  refine h _ _ _ hnode htime ?_ ?_ fun earlier hearlier other hother => ?_
  · rw [← not_lt, ← lt_firstIndex_iff htimes q htime]
    exact Nat.lt_irrefl _
  · exact (lt_firstIndex_iff htimes r htime).mp hlt
  · exact (lt_firstIndex_iff htimes q hother).mp hearlier

theorem startsWithCall_of_ne (htimes : model.timestamps.Pairwise (· ≤ ·)) {nodes : List Nat}
    (hcount : model.timestamps.length = nodes.length + 1)
    (h : model.system.collector ≠ nodes[model.firstIndex (some q)]?) (r : Rat) :
    model.StartsWithCall nodes q r := by
  intro index node start hnode hstart hleast _ hbefore
  have hlt := (List.getElem?_eq_some_iff.mp hnode).1
  have hindex : index = model.firstIndex (some q) := by
    refine Nat.le_antisymm (Nat.not_lt.mp fun hbehind => ?_) (Nat.not_lt.mp fun hfront => ?_)
    · have hwithin : model.firstIndex (some q) < model.timestamps.length := by omega
      have htime := List.getElem?_eq_getElem hwithin
      exact Nat.lt_irrefl _ ((lt_firstIndex_iff htimes q htime).mpr (hbefore _ hbehind _ htime))
    · exact absurd ((lt_firstIndex_iff htimes q hstart).mp hfront) (not_lt.mpr hleast)
  rwa [← hindex, hnode] at h

/-- A replay reports some events, with buffers of its own or with others that are large enough. -/
structure Replays (model : Model Rat) (start stop : Value Rat) (events : List (Event Rat)) :
    Prop where
  own : model.replay start stop = .ok events
  others : ∀ scratch : Scratch Rat, model.scratchSize ≤ scratch.starts.size →
    model.scratchSize ≤ scratch.inner.size →
    ∃ left, model.replayWith scratch start stop = .ok (left, events)

/-- **Adjacent windows tile.**  The frames of a node are open as long in a window as in the windows
up to some time in it and from there on together, unless the second one starts with a
collection. -/
theorem sum_durationOf_tiles {profile : Value Rat} {keepNatives : Bool}
    (h : load profile keepNatives = .ok model) (htimes : model.timestamps.Pairwise (· ≤ ·))
    (hpq : p ≤ q) (hqr : q ≤ r) :
    ∃ nodes whole first second,
      (model.samples.getD []).mapM (requirePosition model.names) = .ok nodes ∧
      model.Replays (.num p) (.num r) whole ∧ model.Replays (.num p) (.num q) first ∧
      model.Replays (.num q) (.num r) second ∧
      (model.StartsWithCall nodes q r → ∀ node,
        (whole.map (Event.durationOf node)).sum =
          (first.map (Event.durationOf node)).sum + (second.map (Event.durationOf node)).sum) := by
  have hsound := sound_of_load h
  cases hsamples : model.samples with
  | none =>
    have hbare : ∀ start stop, model.Replays start stop [] := by
      refine fun start stop => ⟨?_, fun scratch _ _ => ⟨scratch, ?_⟩⟩
      · rw [replay, replayWith_of_none hsamples]
        rfl
      · exact replayWith_of_none hsamples scratch start stop
    exact ⟨[], [], [], [], rfl, hbare _ _, hbare _ _, hbare _ _, fun _ _ => by simp⟩
  | some samples =>
    obtain ⟨nodes, lastWhole, hnodes, -, hlastWhole, hwhole, hwholeOthers⟩ :=
      hsound.exists_replay hsamples (some p) (some r)
    obtain ⟨_, lastFirst, hnodesFirst, -, hlastFirst, hfirst, hfirstOthers⟩ :=
      hsound.exists_replay hsamples (some p) (some q)
    obtain ⟨_, lastSecond, hnodesSecond, -, hlastSecond, hsecond, hsecondOthers⟩ :=
      hsound.exists_replay hsamples (some q) (some r)
    obtain rfl := Except.ok.inj (hnodes.symm.trans hnodesFirst)
    obtain rfl := Except.ok.inj (hnodes.symm.trans hnodesSecond)
    refine ⟨nodes, _, _, _, hnodes, ⟨hwhole, hwholeOthers⟩, ⟨hfirst, hfirstOthers⟩,
      ⟨hsecond, hsecondOthers⟩, fun hcall node => ?_⟩
    have hsize : nodes.length = samples.length := length_of_mapM hnodes
    have hcount : model.timestamps.length = nodes.length + 1 :=
      hsize ▸ hsound.times samples hsamples
    rw [← hsize] at hlastWhole hlastFirst hlastSecond
    -- both windows that end at `r` end at the same time
    have hlast : lastWhole = lastSecond := by
      rw [stopIndex_eq_firstIndex htimes hcount (hpq.trans hqr),
        ← stopIndex_eq_firstIndex htimes hcount hqr, hlastSecond] at hlastWhole
      exact (Option.some.inj hlastWhole).symm
    have hmiddle := nextTime_streamOf htimes hcount hpq hqr hlastFirst hlastSecond
    rw [hlast, streamOf_append htimes hcount hpq hqr, ← hmiddle]
    exact sum_durationOf_replayed hsound.wellPlaced hsound.collector_ne_zero lastSecond _ _
      (fun _ => hcall.head? htimes hcount hqr) node

theorem sum_durationOf_tiles_nestedCalls :
    ∃ model nodes whole first second, load nestedCalls false = .ok model ∧
      model.StartsWithCall nodes 4 9 ∧ model.Replays (.num 1) (.num 9) whole ∧
      model.Replays (.num 1) (.num 4) first ∧ model.Replays (.num 4) (.num 9) second ∧
      (whole.map (Event.durationOf 1)).sum =
        (first.map (Event.durationOf 1)).sum + (second.map (Event.durationOf 1)).sum := by
  have hchecked : (do
      let model ← load nestedCalls false
      let nodes ← (model.samples.getD []).mapM (requirePosition model.names)
      return (decide (model.timestamps.Pairwise (· ≤ ·)),
        decide (model.timestamps.length = nodes.length + 1),
        decide (model.system.collector ≠ nodes[model.firstIndex (some 4)]?))) =
          .ok (true, true, true) := by
    decide +kernel
  obtain ⟨model, hload, hchecked⟩ := bind_eq_ok.mp hchecked
  obtain ⟨nodes, hnodes, hchecks⟩ := bind_eq_ok.mp hchecked
  obtain ⟨htimes, hchecks⟩ := Prod.mk.inj (pure_eq_ok.mp hchecks)
  obtain ⟨hcount, hcall⟩ := Prod.mk.inj hchecks
  have hpairwise := of_decide_eq_true htimes
  obtain ⟨_, whole, first, second, hfound, hwhole, hfirst, hsecond, htiles⟩ :=
    sum_durationOf_tiles hload hpairwise (show (1 : Rat) ≤ 4 by decide)
      (show (4 : Rat) ≤ 9 by decide)
  obtain rfl := Except.ok.inj (hnodes.symm.trans hfound)
  have hstarts : model.StartsWithCall nodes 4 9 :=
    startsWithCall_of_ne hpairwise (of_decide_eq_true hcount) (of_decide_eq_true hcall) 9
  exact ⟨model, nodes, whole, first, second, hload, hstarts, hwhole, hfirst, hsecond,
    htiles hstarts 1⟩

end Model
end SampledProfile
