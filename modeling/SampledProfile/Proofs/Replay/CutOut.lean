/-
# A window is a profile cut out

Where the times of a model are in order, the samples of a window stand side by side: those whose
times are not before its start and before its stop.  The start is found by halving and the stop by a
walk, and both give the first index at which a test turns (`bisect_eq`, `indexFrom_eq`).

`Model.slice` is the model with the samples of some indices alone, and the times from the first of
them to the one behind the last.  A replay of a window is a replay of all samples of such a slice
(`Model.replay_slice_of_load`), whatever the times at its edges are.  A bound without a value
compares with no time.  It stops nothing (`Model.replay_undefined_stop`).
-/
import SampledProfile.Proofs.Replay.Windows
import SampledProfile.Proofs.Samples.Stability

namespace SampledProfile

open Outcome

/-! ## 1. Where a test turns -/

section Turning

variable {γ : Type}

/-- A test that fails from an entry on if it fails there turns at one index. -/
theorem exists_turn {test : γ → Bool} : ∀ {entries : List γ},
    entries.Pairwise (fun earlier later => test later = true → test earlier = true) →
    ∃ bound ≤ entries.length, ∀ index entry, entries[index]? = some entry →
      (test entry = true ↔ index < bound)
  | [], _ => ⟨0, Nat.le_refl 0, by simp⟩
  | first :: rest, h => by
    obtain ⟨hfirst, hrest⟩ := List.pairwise_cons.mp h
    by_cases hpassed : test first = true
    · obtain ⟨bound, hbound, hturn⟩ := exists_turn hrest
      refine ⟨bound + 1, Nat.succ_le_succ hbound, fun index entry hentry => ?_⟩
      cases index with
      | zero =>
        cases hentry
        exact iff_of_true hpassed (Nat.succ_pos _)
      | succ index => exact (hturn index entry hentry).trans Nat.succ_lt_succ_iff.symm
    · -- what fails at first fails everywhere
      refine ⟨0, Nat.zero_le _, fun index entry hentry => iff_of_false ?_ (Nat.not_lt_zero _)⟩
      rcases List.mem_cons.mp (List.mem_of_getElem? hentry) with rfl | hmem
      · exact hpassed
      · exact fun hlater => hpassed (hfirst entry hmem hlater)

/-- Halving finds the index at which a test turns. -/
theorem Model.bisect_eq {isBefore : Nat → Bool} {bound most : Nat}
    (hturn : ∀ index < most, isBefore index = true ↔ index < bound) :
    ∀ (fuel : Nat) {low high : Nat}, low ≤ bound → bound ≤ high → high ≤ most →
      high ≤ low + fuel → Model.bisect isBefore fuel low high = bound
  | 0, low, high, hlow, hhigh, _, hfuel => by
    rw [Model.bisect]
    omega
  | fuel + 1, low, high, hlow, hhigh, hmost, hfuel => by
    rw [Model.bisect]
    split
    · rename_i hlt
      have hmiddle := hturn ((low + high) / 2) (by omega)
      dsimp only
      split
      · rename_i hbefore
        have hbound := hmiddle.mp hbefore
        exact bisect_eq hturn fuel (by omega) hhigh hmost (by omega)
      · rename_i hnot
        have hbound : ¬ (low + high) / 2 < bound := fun hlt => hnot (hmiddle.mpr hlt)
        exact bisect_eq hturn fuel hlow (by omega) (by omega) (by omega)
    · omega

end Turning

/-! ## 2. Comparisons of values -/

namespace Magnitude

theorem isDefined_of_isFinite {a : Magnitude} (h : a.isFinite = true) : a.isDefined = true := by
  cases a with
  | finite value => rfl
  | infinite negative => cases h
  | undefined mark => cases h

/-- One value is at or above another one exactly if it is not below. -/
theorem ge_eq_not_lt {a b : Magnitude} (ha : a.isDefined = true) (hb : b.isDefined = true) :
    a.ge b = !a.lt b := by
  rcases a with a | (_ | _) | _ <;> rcases b with b | (_ | _) | _ <;>
    simp_all [ge, lt, same, isDefined]
  rw [← Bool.decide_or, ← decide_not, decide_eq_decide, not_lt, le_iff_lt_or_eq,
    eq_comm (a := a)]

theorem lt_of_ge_of_lt {a b c : Magnitude} (ha : a.isDefined = true) (hb : b.isDefined = true)
    (hc : c.isDefined = true) (hba : b.ge a = true) (hbc : b.lt c = true) : a.lt c = true := by
  rw [ge_eq_not_lt hb ha, lt_eq_decide_rank hb ha, Bool.not_eq_true', decide_eq_false_iff_not,
    not_lt] at hba
  rw [lt_eq_decide_rank hb hc, decide_eq_true_eq] at hbc
  rw [lt_eq_decide_rank ha hc, decide_eq_true_eq]
  exact hba.trans_lt hbc

end Magnitude

namespace Model

variable {α : Type} [Scalar α] {model : Model α}

/-- All times are finite, and none is below an earlier one. -/
structure Ascending (times : List α) : Prop where
  finite : ∀ time ∈ times, (Scalar.exact time).isFinite = true
  pairwise : times.Pairwise fun earlier later => Scalar.ge later earlier = true

theorem Ascending.defined {times : List α} (h : Ascending times) {time : α} (htime : time ∈ times) :
    (Scalar.exact time).isDefined = true := Magnitude.isDefined_of_isFinite (h.finite time htime)

/-- Times in order turn at one index from below a bound to others. -/
theorem Ascending.exists_turn {times : List α} (h : Ascending times) {bound : α}
    (hbound : (Scalar.exact bound).isDefined = true) :
    ∃ turn ≤ times.length, ∀ index time, times[index]? = some time →
      (Scalar.lt time bound = true ↔ index < turn) := by
  refine SampledProfile.exists_turn (h.pairwise.imp_of_mem ?_)
  intro earlier later hearlier hlater hge hlt
  exact Magnitude.lt_of_ge_of_lt (h.defined hearlier) (h.defined hlater) hbound hge hlt

/-- Halving finds the first time that is not below another one. -/
theorem firstFrom_eq {times : List α} {time : α} {turn : Nat} (hturn : turn ≤ times.length)
    (hbelow : ∀ index other, times[index]? = some other →
      (Scalar.lt other time = true ↔ index < turn)) : firstFrom times time = turn := by
  have hsize : times.toArray.size = times.length := List.size_toArray
  have hbefore : ∀ index < times.length,
      (times.toArray[index]?.map (Scalar.lt · time)).getD false = true ↔ index < turn := by
    intro index hindex
    have htime := List.getElem?_eq_getElem hindex
    rw [List.getElem?_toArray, htime, Option.map_some, Option.getD_some]
    exact hbelow index times[index] htime
  exact bisect_eq hbefore _ (Nat.zero_le _) (hturn.trans_eq hsize.symm) hsize.le
    (Nat.zero_add _).ge

/-! ## 3. The samples of a window -/

/-- The time is in a window. -/
def Within (start stop : Option α) (time : α) : Prop :=
  (∀ first, start = some first → Scalar.ge time first = true) ∧
    ∀ last, stop = some last → Scalar.lt time last = true

/-- A bound of a window has a value. -/
def IsBound (bound : Option α) : Prop :=
  ∀ time, bound = some time → (Scalar.exact time).isDefined = true

theorem firstIndex_le_iff (htimes : Ascending model.timestamps) {start : Option α}
    (hstart : IsBound start) {index : Nat} {time : α}
    (htime : model.timestamps[index]? = some time) :
    model.firstIndex start ≤ index ↔ ∀ first, start = some first → Scalar.ge time first = true := by
  cases start with
  | none => exact iff_of_true (Nat.zero_le _) nofun
  | some first =>
    have hdefined := hstart first rfl
    obtain ⟨turn, hle, hturn⟩ := htimes.exists_turn hdefined
    have hge : Scalar.ge time first = !Scalar.lt time first :=
      Magnitude.ge_eq_not_lt (htimes.defined (List.mem_of_getElem? htime)) hdefined
    rw [show model.firstIndex (some first) = turn from firstFrom_eq hle hturn]
    constructor
    · rintro hindex _ ⟨⟩
      rw [hge, Bool.not_eq_true', Bool.eq_false_iff]
      exact fun hlt => absurd ((hturn index time htime).mp hlt) (Nat.not_lt.mpr hindex)
    · intro hall
      refine Nat.not_lt.mp fun hlt => ?_
      have hnot := hall first rfl
      rw [hge, (hturn index time htime).mpr hlt] at hnot
      cases hnot

/-- A window stops at the times that are not below its stop. -/
theorem stopsAt_iff {stop : Option α} (hstop : IsBound stop) {time : α}
    (hfinite : (Scalar.exact time).isFinite = true) :
    stopsAt stop time = true ↔ ¬ ∀ last, stop = some last → Scalar.lt time last = true := by
  cases stop with
  | none =>
    rw [stopsAt_of_finite hfinite]
    simp
  | some last =>
    have hge : stopsAt (some last) time = !Scalar.lt time last :=
      Magnitude.ge_eq_not_lt (Magnitude.isDefined_of_isFinite hfinite) (hstop last rfl)
    rw [hge]
    simp

/-- There is an index from which on all times are too late for a window. -/
theorem exists_stop (htimes : Ascending model.timestamps) {stop : Option α}
    (hstop : IsBound stop) :
    ∃ turn : Nat, ∀ index time, model.timestamps[index]? = some time →
      (stopsAt stop time = true ↔ turn ≤ index) := by
  cases stop with
  | none =>
    refine ⟨model.timestamps.length, fun index time htime => ?_⟩
    rw [stopsAt_of_finite (htimes.finite time (List.mem_of_getElem? htime))]
    have hlt := (List.getElem?_eq_some_iff.mp htime).1
    simp [hlt]
  | some last =>
    obtain ⟨turn, -, hturn⟩ := htimes.exists_turn (hstop last rfl)
    refine ⟨turn, fun index time htime => ?_⟩
    rw [stopsAt_iff hstop (htimes.finite time (List.mem_of_getElem? htime)), ← Nat.not_lt,
      ← hturn index time htime]
    simp

/-- Where a window stops, in terms of that index. -/
theorem stopIndex_eq {count : Nat} (hcount : model.timestamps.length = count + 1)
    {stop : Option α} {turn : Nat}
    (hturn : ∀ index time, model.timestamps[index]? = some time →
      (stopsAt stop time = true ↔ turn ≤ index)) (start : Option α) :
    model.stopIndex count start stop = min count (max (model.firstIndex start) turn) := by
  have htaken : ∀ index time, (model.timestamps.take count)[index]? = some time →
      (stopsAt stop time = true ↔ turn ≤ index) := by
    intro index time htime
    obtain ⟨hindex, rfl⟩ := List.getElem?_eq_some_iff.mp htime
    rw [List.length_take] at hindex
    rw [List.getElem_take]
    exact hturn index _ (List.getElem?_eq_getElem (by omega))
  rw [stopIndex, indexFrom_eq htaken count _ (by rw [List.length_take]; omega), List.length_take]
  omega

/-- **The samples of a window are those from one index to another whose times are in it.** -/
theorem index_iff_within (htimes : Ascending model.timestamps) {count : Nat}
    (hcount : model.timestamps.length = count + 1) {start stop : Option α} (hstart : IsBound start)
    (hstop : IsBound stop) (index : Nat) :
    (model.firstIndex start ≤ index ∧ index < model.stopIndex count start stop) ↔
      index < count ∧ ∃ time, model.timestamps[index]? = some time ∧ Within start stop time := by
  obtain ⟨turn, hturn⟩ := exists_stop htimes hstop
  rw [stopIndex_eq hcount hturn]
  by_cases hindex : index < count
  · have htime : model.timestamps[index]? = some model.timestamps[index] :=
      List.getElem?_eq_getElem (by omega)
    have hfirst := firstIndex_le_iff htimes hstart htime
    have hlast := stopsAt_iff hstop (htimes.finite _ (List.mem_of_getElem? htime))
    rw [hturn index _ htime] at hlast
    constructor
    · rintro ⟨hge, hlt⟩
      have hbefore : ¬ turn ≤ index := by omega
      exact ⟨hindex, _, htime, hfirst.mp hge, not_not.mp (hbefore ∘ hlast.mpr)⟩
    · rintro ⟨-, time, hfound, hge, hlt⟩
      rw [htime] at hfound
      obtain rfl := Option.some.inj hfound
      have hbefore : ¬ turn ≤ index := fun hle => hlast.mp hle hlt
      have hle := hfirst.mpr hge
      omega
  · refine iff_of_false ?_ fun hboth => hindex hboth.1
    rintro ⟨-, hlt⟩
    omega

/-! ## 4. Cutting out -/

section Slices

variable {γ δ : Type}

theorem slice_zip : ∀ (first stop : Nat) (xs : List γ) (ys : List δ),
    ((xs.take stop).drop first).zip ((ys.take (stop + 1)).drop first) =
      ((xs.zip ys).take stop).drop first
  | 0, 0, _, _ => by simp
  | _ + 1, 0, _, _ => by simp
  | _, _ + 1, [], _ => by simp
  | _, _ + 1, _, [] => by simp
  | 0, stop + 1, x :: xs, y :: ys => by
    have hrest := slice_zip 0 stop xs ys
    simpa using hrest
  | first + 1, stop + 1, x :: xs, y :: ys => by
    have hrest := slice_zip first stop xs ys
    simpa using hrest

/-- Behind the end of a list it is no matter how much is dropped. -/
theorem drop_min {xs : List γ} {count : Nat} (h : xs.length ≤ count) (first : Nat) :
    xs.drop (min count first) = xs.drop first := by
  rcases Nat.le_total count first with hle | hle
  · rw [Nat.min_eq_left hle, List.drop_eq_nil_of_le h, List.drop_eq_nil_of_le (h.trans hle)]
  · rw [Nat.min_eq_right hle]

end Slices

/-- The model with the samples from one index up to another alone, on the same tree.  The last of
them ends when the one behind it starts. -/
def slice (model : Model α) (first stop : Nat) : Model α :=
  { model with
    samples := model.samples.map fun samples => (samples.take stop).drop first
    timestamps := (model.timestamps.take (stop + 1)).drop first }

/-- A slice of a sound model is one too. -/
theorem Sound.slice (h : model.Sound) {samples : List (Value α)}
    (hsamples : model.samples = some samples) {first stop : Nat} (hfirst : first ≤ stop)
    (hstop : stop ≤ samples.length) : (model.slice first stop).Sound := by
  refine ⟨h.wellPlaced, h.names, h.collector, fun sliced hsliced id hid => ?_,
    fun sliced hsliced => ?_⟩
  · rw [Model.slice, hsamples] at hsliced
    obtain rfl := Option.some.inj hsliced
    exact h.samples samples hsamples id (List.mem_of_mem_take (List.mem_of_mem_drop hid))
  · rw [Model.slice, hsamples] at hsliced
    obtain rfl := Option.some.inj hsliced
    have hcount := h.times samples hsamples
    show ((model.timestamps.take (stop + 1)).drop first).length =
      ((samples.take stop).drop first).length + 1
    simp only [List.length_drop, List.length_take]
    omega

/-- The samples from one index up to another are those of a window, and those it replays. -/
structure Spans (model : Model α) (samples : List (Value α)) (start stop : Option α)
    (first last : Nat) : Prop where
  le : first ≤ last
  le_length : last ≤ samples.length
  within : ∀ index, first ≤ index ∧ index < last ↔
    index < samples.length ∧ ∃ time, model.timestamps[index]? = some time ∧ Within start stop time
  window : ∃ ends, model.window samples (.ofOption (start.map .num)) (.ofOption (stop.map .num)) =
    .ok (((samples.zip model.timestamps).take last).drop first, ends)

/-- No samples are a window of no samples. -/
theorem spans_nil (model : Model α) (start stop : Option α) : model.Spans [] start stop 0 0 := by
  refine ⟨Nat.le_refl 0, Nat.le_refl 0, fun index => by simp, ?_⟩
  have hwindow := model.window_ofOption [] start stop
  simp only [List.zip_nil_left, List.drop_nil, List.takeWhile_nil] at hwindow
  exact ⟨_, hwindow⟩

section Sliced

variable {samples : List (Value α)} {start stop : Option α}

/-- Where the window of a sound model starts and stops. -/
theorem Sound.spans (h : model.Sound) (hsamples : model.samples = some samples)
    (htimes : Ascending model.timestamps) (hstart : IsBound start) (hstop : IsBound stop) :
    model.Spans samples start stop (min samples.length (model.firstIndex start))
      (model.stopIndex samples.length start stop) := by
  have hcount := h.times samples hsamples
  obtain ⟨turn, hturn⟩ := exists_stop htimes hstop
  have hlast := stopIndex_eq hcount hturn start
  refine ⟨by omega, by omega, fun index => ?_, ?_⟩
  · rw [← index_iff_within htimes hcount hstart hstop index]
    omega
  · obtain ⟨ends, hwindow, -⟩ := window_eq hcount start stop
    have hlength : ((samples.zip model.timestamps).take
        (model.stopIndex samples.length start stop)).length ≤ samples.length := by
      rw [List.length_take, List.length_zip]
      omega
    exact ⟨ends, by rw [hwindow, drop_min hlength]⟩

/-- A slice is replayed by a run through its nodes. -/
theorem Sound.replayWith_slice_eq_run (h : model.Sound) (hsamples : model.samples = some samples)
    (hfinite : ∀ time ∈ model.timestamps, (Scalar.exact time).isFinite = true) {nodes : List Nat}
    (hnodes : samples.mapM (requirePosition model.names) = .ok nodes) {first last : Nat}
    (hfirst : first ≤ last) {ends : α} (hlast : last ≤ samples.length)
    (hends : model.timestamps[last]? = some ends) (scratch : Scratch α) :
    (model.slice first last).replayWith scratch .null .null =
      Replay.run model.arena model.system.collector (isAlike model.arena)
        (((nodes.zip model.timestamps).take last).drop first) ends scratch := by
  have hcount : nodes.length = samples.length := length_of_mapM hnodes
  have hlength : model.timestamps.length = samples.length + 1 := h.times samples hsamples
  have hsliced : (model.slice first last).samples = some ((samples.take last).drop first) := by
    rw [Model.slice, hsamples, Option.map_some]
  have hslicedNodes : ((samples.take last).drop first).mapM (requirePosition model.names) =
      .ok ((nodes.take last).drop first) :=
    mapM_eq_ok_iff.mpr
      (List.forall₂_drop first (List.forall₂_take last (mapM_eq_ok_iff.mp hnodes)))
  have hslicedLength : (model.slice first last).timestamps.length =
      ((nodes.take last).drop first).length + 1 := by
    simp only [Model.slice, List.length_drop, List.length_take]
    omega
  have hslicedFinite : ∀ time ∈ (model.slice first last).timestamps,
      (Scalar.exact time).isFinite = true := fun time htime =>
    hfinite time (List.mem_of_mem_take (List.mem_of_mem_drop htime))
  obtain ⟨slicedEnds, hrun, hslicedEnds⟩ :=
    replayWith_eq_run (h.slice hsamples hfirst hlast) hsliced hslicedNodes none none
  -- the slice ends at the time behind it
  have hsame : slicedEnds = ends := by
    have htime := hslicedEnds (Nat.zero_le _)
    have hsamplesLength : ((samples.take last).drop first).length =
        ((nodes.take last).drop first).length := by
      simp only [List.length_drop, List.length_take, hcount]
    rw [hsamplesLength, stopIndex_of_finite hslicedFinite hslicedLength] at htime
    simp only [Model.slice, List.length_drop, List.length_take, List.getElem?_drop] at htime
    rw [show first + (min last nodes.length - first) = last by omega,
      List.getElem?_take_of_lt (Nat.lt_succ_self last), hends] at htime
    exact (Option.some.inj htime).symm
  rw [show (model.slice first last).replayWith scratch .null .null = _ from hrun scratch,
    streamOf_of_finite hslicedFinite hslicedLength, hsame]
  show Replay.run _ _ _ (((nodes.take last).drop first).zip
    ((model.timestamps.take (last + 1)).drop first)) _ _ = _
  rw [slice_zip]
  rfl

/-- **A window is replayed as its slice is.** -/
theorem Sound.replayWith_slice (h : model.Sound) (hsamples : model.samples = some samples)
    (htimes : Ascending model.timestamps) (hstart : IsBound start) (hstop : IsBound stop)
    (scratch : Scratch α) :
    (model.slice (min samples.length (model.firstIndex start))
        (model.stopIndex samples.length start stop)).replayWith scratch .null .null =
      model.replayWith scratch (.ofOption (start.map .num)) (.ofOption (stop.map .num)) := by
  have hspans := h.spans hsamples htimes hstart hstop
  obtain ⟨nodes, hnodes, -⟩ := h.exists_nodes hsamples
  have hcount : nodes.length = samples.length := length_of_mapM hnodes
  have hlength : model.timestamps.length = samples.length + 1 := h.times samples hsamples
  obtain ⟨ends, hrun, hends⟩ := replayWith_eq_run h hsamples hnodes start stop
  have hlast := hspans.le_length
  have hstream : ((nodes.zip model.timestamps).take
      (model.stopIndex samples.length start stop)).drop
        (min samples.length (model.firstIndex start)) = model.streamOf nodes start stop := by
    rw [streamOf, hcount]
    refine drop_min ?_ _
    rw [List.length_take, List.length_zip]
    omega
  rw [hrun scratch]
  by_cases hwithin : model.firstIndex start ≤ samples.length
  · rw [h.replayWith_slice_eq_run hsamples htimes.finite hnodes hspans.le hlast (hends hwithin),
      hstream]
  · -- such a window is empty, and it does not matter when it ends
    have htime : model.timestamps[model.stopIndex samples.length start stop]? = some _ :=
      List.getElem?_eq_getElem (by omega)
    have hempty : model.streamOf nodes start stop = [] := streamOf_eq_nil (by rw [hcount]; omega)
    rw [h.replayWith_slice_eq_run hsamples htimes.finite hnodes hspans.le hlast htime, hstream,
      hempty, run_nil h.wellPlaced, run_nil h.wellPlaced]

end Sliced

/-! ## 5. Loaded models -/

/-- **A window of a loaded model has the samples whose times are in it, which stand side by side,
and it is replayed as the model with these samples alone is.**  Where there are none, nothing is
reported. -/
theorem replay_slice_of_load {profile : Value α} {keepNatives : Bool}
    (h : load profile keepNatives = .ok model) (htimes : Ascending model.timestamps)
    {start stop : Option α} (hstart : IsBound start) (hstop : IsBound stop) :
    ∃ first last, model.Spans (model.samples.getD []) start stop first last ∧
      (∀ scratch, (model.slice first last).replayWith scratch .null .null =
        model.replayWith scratch (.ofOption (start.map .num)) (.ofOption (stop.map .num))) ∧
      (model.slice first last).replay .null .null =
        model.replay (.ofOption (start.map .num)) (.ofOption (stop.map .num)) ∧
      (first = last → ∀ scratch, model.replayWith scratch (.ofOption (start.map .num))
        (.ofOption (stop.map .num)) = .ok (scratch, [])) := by
  have hsound := sound_of_load h
  cases hsamples : model.samples with
  | none =>
    have hsliced : (model.slice 0 0).samples = none := by rw [slice, hsamples, Option.map_none]
    have hsame : ∀ scratch, (model.slice 0 0).replayWith scratch .null .null =
        model.replayWith scratch (.ofOption (start.map .num)) (.ofOption (stop.map .num)) := by
      intro scratch
      rw [replayWith_of_none hsliced, replayWith_of_none hsamples]
    exact ⟨0, 0, model.spans_nil start stop, hsame, congrArg (Except.map Prod.snd) (hsame _),
      fun _ scratch => replayWith_of_none hsamples scratch _ _⟩
  | some samples =>
    have hspans := hsound.spans hsamples htimes hstart hstop
    have hslice := hsound.replayWith_slice hsamples htimes hstart hstop
    refine ⟨_, _, hspans, hslice, ?_, fun hempty scratch => ?_⟩
    · exact congrArg (Except.map Prod.snd) (hslice _)
    · obtain ⟨nodes, hnodes, -⟩ := hsound.exists_nodes hsamples
      obtain ⟨ends, hrun, -⟩ := replayWith_eq_run hsound hsamples hnodes start stop
      have hcount : nodes.length = samples.length := length_of_mapM hnodes
      have hlast := hspans.le_length
      have hnone : model.streamOf nodes start stop = [] := streamOf_eq_nil (by rw [hcount]; omega)
      rw [hrun scratch, hnone, run_nil hsound.wellPlaced]

/-- A quarter as a double. -/
def quarter : Number := .real (Binary64.ofDecimal false 25 2 (-2))

/-- Three quarters as a double. -/
def threeQuarters : Number := .real (Binary64.ofDecimal false 75 2 (-2))

theorem replay_slice_of_load_collections :
    ∃ model, load (collections (.int 2) 4) false = .ok model ∧ model.timestamps.length = 5 ∧
      model.Spans (model.samples.getD []) (some quarter) (some threeQuarters) 1 3 ∧
      (model.slice 1 3).replay .null .null =
        model.replay (.num quarter) (.num threeQuarters) := by
  have hchecked : (do
      let model ← load (collections (.int 2) 4) false
      return (model.timestamps.all fun time => (Scalar.exact time).isFinite,
        decide (model.timestamps.Pairwise fun earlier later => Scalar.ge later earlier = true),
        (model.samples.getD []).length,
        model.timestamps.map fun time =>
          Scalar.ge time quarter && Scalar.lt time threeQuarters)) =
          .ok (true, true, 4, [false, true, true, false, false]) := by
    decide +kernel
  obtain ⟨model, hload, hchecks⟩ := bind_eq_ok.mp hchecked
  obtain ⟨hfinite, hchecks⟩ := Prod.mk.inj (pure_eq_ok.mp hchecks)
  obtain ⟨hpairwise, hchecks⟩ := Prod.mk.inj hchecks
  obtain ⟨hcount, hwithin⟩ := Prod.mk.inj hchecks
  have htimes : Ascending model.timestamps :=
    ⟨List.all_eq_true.mp hfinite, of_decide_eq_true hpairwise⟩
  have hstart : IsBound (some quarter) := by
    rintro _ ⟨⟩
    decide +kernel
  have hstop : IsBound (some threeQuarters) := by
    rintro _ ⟨⟩
    decide +kernel
  obtain ⟨first, last, hspans, -, hreplay, -⟩ := replay_slice_of_load hload htimes hstart hstop
  -- the samples in the window are the two in the middle
  have hmiddle : ∀ index, first ≤ index ∧ index < last ↔
      index < 4 ∧ [false, true, true, false, false][index]? = some true := by
    intro index
    rw [hspans.within index, hcount, ← hwithin, List.getElem?_map, Option.map_eq_some_iff]
    simp [Within]
  have hbefore : ¬ (first ≤ 0 ∧ 0 < last) := fun h => absurd ((hmiddle 0).mp h) (by decide)
  have hfirst : first ≤ 1 ∧ 1 < last := (hmiddle 1).mpr (by decide)
  have hlast : first ≤ 2 ∧ 2 < last := (hmiddle 2).mpr (by decide)
  have hbehind : ¬ (first ≤ 3 ∧ 3 < last) := fun h => absurd ((hmiddle 3).mp h) (by decide)
  obtain rfl : first = 1 := by omega
  obtain rfl : last = 3 := by omega
  have hlength := congrArg List.length hwithin
  rw [List.length_map] at hlength
  exact ⟨model, hload, hlength, hspans, hreplay⟩

/-- **A stop without a value stops nothing**, although no time is below it. -/
theorem replay_undefined_stop :
    ∃ model events, load (collections (.int 2) 3) false = .ok model ∧
      Ascending model.timestamps ∧
      (∀ time ∈ model.timestamps, ¬ Within none (some (.undefined 0)) time) ∧
      model.replay .null (.num (.undefined 0)) = .ok events ∧ events.length = 2 := by
  have hchecked : (do
      let model ← load (collections (.int 2) 3) false
      let events ← model.replay .null (.num (.undefined 0))
      return (model.timestamps.all fun time => (Scalar.exact time).isFinite,
        decide (model.timestamps.Pairwise fun earlier later => Scalar.ge later earlier = true),
        model.timestamps.all fun time => !Scalar.lt time (.undefined 0), events.length)) =
          .ok (true, true, true, 2) := by
    decide +kernel
  obtain ⟨model, hload, hchecked⟩ := bind_eq_ok.mp hchecked
  obtain ⟨events, hevents, hchecks⟩ := bind_eq_ok.mp hchecked
  obtain ⟨hfinite, hchecks⟩ := Prod.mk.inj (pure_eq_ok.mp hchecks)
  obtain ⟨hpairwise, hchecks⟩ := Prod.mk.inj hchecks
  obtain ⟨hbelow, hcount⟩ := Prod.mk.inj hchecks
  refine ⟨model, events, hload, ⟨List.all_eq_true.mp hfinite, of_decide_eq_true hpairwise⟩, ?_,
    hevents, hcount⟩
  intro time htime hwithin
  have hlt : Scalar.lt time (.undefined 0) = true := hwithin.2 _ rfl
  have hnot := List.all_eq_true.mp hbelow time htime
  rw [hlt] at hnot
  cases hnot

end Model
end SampledProfile
