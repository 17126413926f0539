/-
# The table of frames is the pre-order of the forest

The rows of the table come as their frames close, and are then put in order by time and depth.  Where
every sample of a window is later than the one before it, this is the order in which the frames
opened (`Report.frameRows_preorder`): no two frames have the same time and depth, and there is only
one way to put frames in such an order (`framesOf_eq_rows`).

One case has to be seen to by itself.  The time of a single sample need not have a value.  Then the
frames are sorted by runs, and what is known is that they close in falling order, which is one run
(`Runs.sort_of_descending`).

All that is asked for is that the id of a collection equals itself.  Otherwise there are frames that
open and never close, and these have no row (`Report.frameRows_unclosed`).
-/
import SampledProfile.Proofs.Report.Agreement
import SampledProfile.Proofs.Report.Openings

namespace SampledProfile

open Outcome

/-! ## 1. Sorting what falls -/

namespace Runs

variable {β : Type} {below : Order β}

theorem startWhere_of_descending : ∀ {taken : List β} {last : β} {entries : List β},
    (last :: entries).Pairwise (fun a b => below b a = .ok true) →
    startWhere below true taken last entries = .ok ((last :: entries).reverse ++ taken, [])
  | taken, last, [], _ => rfl
  | taken, last, entry :: rest, h => by
    obtain ⟨hlast, hrest⟩ := List.pairwise_cons.mp h
    rw [startWhere, hlast entry List.mem_cons_self, ok_bind, if_pos rfl,
      startWhere_of_descending hrest]
    simp

theorem naturalRun_of_descending : ∀ {entries : List β},
    entries.Pairwise (fun a b => below b a = .ok true) →
    naturalRun below entries = .ok (entries.reverse, [])
  | [], _ => rfl
  | [_], _ => rfl
  | first :: second :: rest, h => by
    obtain ⟨hfirst, hrest⟩ := List.pairwise_cons.mp h
    rw [naturalRun, hfirst second List.mem_cons_self, ok_bind, if_pos rfl,
      startWhere_of_descending hrest]
    simp

/-- **Entries each of which is below all before it are turned round.** -/
theorem sort_of_descending {entries : List β}
    (h : entries.Pairwise fun a b => below b a = .ok true) :
    sort below entries = .ok entries.reverse := by
  cases entries with
  | nil => rfl
  | cons first rest =>
    have hrun : ∀ least, nextRun below least (first :: rest) =
        .ok ((first :: rest).reverse, []) := fun least => by
      rw [nextRun, naturalRun_of_descending h, ok_bind]
      simp only [List.take_nil, List.drop_nil, List.foldlM_nil]
      rfl
    have hcut : ∀ fuel least, cut below (rest.length + 1) least (fuel + 1) (first :: rest)
        ⟨[], Merge.worthwhile⟩ = .ok ⟨[⟨(first :: rest).reverse, 0, 0⟩], Merge.worthwhile⟩ := by
      intro fuel least
      rw [cut, hrun, ok_bind]
      · cases fuel <;> rfl
      · nofun
    rw [sort, List.length_cons, hcut, ok_bind]
    rfl

end Runs

variable {α : Type} [Scalar α]

namespace Report

/-! ## 2. One order -/

/-- The frames in any order that goes by when they opened are those of the forest. -/
theorem eq_rows {forest : Forest α} {frames : List (FrameRow α)}
    (hperm : frames.Perm (forest.events.filterMap closedFrame?))
    (hframes : frames.Pairwise fun a b => opensBefore a b = true)
    (hrows : forest.rows.Pairwise fun a b => opensBefore a b = true) : frames = forest.rows :=
  (hperm.trans forest.perm_rows).eq_of_pairwise
    (fun _ _ _ _ hab hba => absurd hba (not_opensBefore_of_opensBefore hab)) hframes hrows

/-- **Put in order the frames of a forest are its rows, if these open in turn and either all have
times with values or they close in falling order.** -/
theorem framesOf_eq_rows {forest : Forest α}
    (hrows : forest.rows.Pairwise fun a b => opensBefore a b = true)
    (h : (∀ frame ∈ forest.rows, (Scalar.exact frame.start).isDefined = true) ∨
      (forest.events.filterMap closedFrame?).Pairwise fun a b => opensBefore b a = true) :
    framesOf forest.events = .ok forest.rows := by
  unfold framesOf Samples.inOrder
  split
  · -- of any two frames one opens before the other, whichever closes first
    have hany : (forest.events.filterMap closedFrame?).Pairwise fun a b =>
        opensBefore a b = true ∨ opensBefore b a = true :=
      (forest.perm_rows.pairwise_iff Or.symm).mpr (hrows.imp Or.inl)
    refine congrArg Except.ok (eq_rows (Samples.perm_stableSort _ _) ?_ hrows)
    refine Samples.pairwise_stableSort opensBefore_trans (hany.imp fun {a b} hab => ?_)
    show if opensBefore b a = true then _ else _
    split
    · assumption
    · rename_i hnot
      exact hab.resolve_right hnot
  · rename_i hundefined
    have hdescending := h.resolve_left fun hdefined => hundefined
      (List.all_eq_true.mpr fun frame hframe => hdefined frame (forest.perm_rows.mem_iff.mp hframe))
    rw [Runs.sort_of_descending (hdescending.imp fun hba => congrArg Except.ok hba)]
    exact congrArg Except.ok
      (eq_rows (List.reverse_perm _) (List.pairwise_reverse.mpr hdescending) hrows)

end Report

/-! ## 3. Loaded models -/

namespace Model

/-- The times of the samples that a replay of a window goes through. -/
def replayTimes (model : Model α) (start stop : Option α) : List α :=
  match model.samples with
  | none => []
  | some samples =>
    (model.timestamps.take (model.stopIndex samples.length start stop)).drop
      (model.firstIndex start)

theorem map_snd_streamOf {model : Model α} (h : model.Sound) {samples : List (Value α)}
    (hsamples : model.samples = some samples) {nodes : List Nat}
    (hcount : nodes.length = samples.length) (start stop : Option α) :
    (model.streamOf nodes start stop).map Prod.snd = model.replayTimes start stop := by
  have hle := stopIndex_le model samples start stop
  rw [replayTimes, hsamples, streamOf, List.map_drop, List.map_take, Samples.map_snd_zip_eq,
    hcount, List.take_take]
  rw [h.times samples hsamples, Nat.min_eq_left (by omega)]

end Model

namespace Report

/-- What a replay reports of samples each later than the one before is put in the order of a
forest. -/
theorem exists_forest_replayed {β : Type} {arena : Arena β α} {collector : Option Nat} (last : α)
    (h : arena.WellPlaced) (hroot : collector ≠ some 0) {stream : List (Nat × α)}
    (htimes : (stream.map Prod.snd).Pairwise fun earlier later =>
      Scalar.lt earlier later = true) :
    ∃ forest : Forest α, replayed arena collector last [] stream [] = forest.events ∧
      forest.LiesAt 0 ∧ framesOf forest.events = .ok forest.rows := by
  have hopen : ([] : List (OpenFrame α)).map OpenFrame.activation =
      (effectiveOf arena collector []).reverse := rfl
  obtain ⟨forest, hevents, hlies⟩ :=
    exists_forest (replayed_bracketed last h hroot stream hopen .nil)
  obtain ⟨hturn, hopened⟩ := inTurn_replayed arena collector last [] [] htimes
  rw [hevents, forest.openings_events] at hturn hopened
  have hrows : forest.rows.Pairwise fun a b => opensBefore a b = true :=
    (List.pairwise_map.mp hturn).imp opensBefore_iff.mpr
  have hstart : ∀ frame ∈ forest.rows, frame.start ∈ stream.map Prod.snd := fun frame hframe =>
    hopened _ (List.mem_map_of_mem hframe)
  refine ⟨forest, hevents, hlies, framesOf_eq_rows hrows ?_⟩
  match stream, htimes with
  | [], _ => exact .inl fun frame hframe => absurd (hstart frame hframe) List.not_mem_nil
  | [sample], _ =>
    refine .inr ?_
    have hdescending := descending_replayed arena collector last sample
    rw [hevents] at hdescending
    refine hdescending.imp_of_mem fun {a b} ha hb hdepth => opensBefore_iff.mpr (.inr ⟨?_, hdepth⟩)
    have htime : ∀ frame ∈ forest.events.filterMap closedFrame?, frame.start = sample.2 :=
      fun frame hframe => by simpa using hstart frame (forest.perm_rows.mem_iff.mp hframe)
    show Scalar.exact b.start = Scalar.exact a.start
    rw [htime a ha, htime b hb]
  | first :: second :: rest, htimes =>
    refine .inl fun frame hframe => ?_
    obtain ⟨hfirst, -⟩ := List.pairwise_cons.mp htimes
    rcases List.mem_cons.mp (hstart frame hframe) with hstart | hstart
    · rw [hstart]
      exact (Magnitude.isDefined_of_lt (hfirst second.2 List.mem_cons_self)).1
    · exact (Magnitude.isDefined_of_lt (hfirst _ hstart)).2

/-- **If every sample of a window is later than the one before it, then the frames of the replay are
a forest, of which the table of frames has one row for every frame, in the order in which they
opened; and the frame directly around a frame of depth `d > 0` is the one of the nearest row before
it with depth `d - 1`.** -/
theorem frameRows_preorder {profile : Value α} {keepNatives : Bool} {model : Model α}
    (h : Model.load profile keepNatives = .ok model)
    (halike : ∀ position, model.system.collector = some position →
      Model.isAlike model.arena position = true) (start stop : Option α)
    (htimes : (model.replayTimes start stop).Pairwise fun earlier later =>
      Scalar.lt earlier later = true) :
    ∃ forest : Forest α,
      model.replay (.ofOption (start.map .num)) (.ofOption (stop.map .num)) =
        .ok forest.events ∧
      frameRows model (.ofOption (start.map .num)) (.ofOption (stop.map .num)) =
        .ok (forest.rows.map (frameRow model.arena)) ∧
      forest.events.filterMap opening? = forest.rows.map FrameRow.opening ∧
      ∀ (index : Nat) (frame : FrameRow α), forest.rows[index]? = some frame → 0 < frame.depth →
        ∃ outer, (forest.outers none)[index]? = some (some outer) ∧
          nearestAbove frame.depth (forest.rows.take index) = some outer := by
  have hsound := Model.sound_of_load h
  have hforest : ∃ forest : Forest α,
      model.replay (.ofOption (start.map .num)) (.ofOption (stop.map .num)) =
        .ok forest.events ∧ forest.LiesAt 0 ∧ framesOf forest.events = .ok forest.rows := by
    cases hsamples : model.samples with
    | none =>
      refine ⟨.empty, ?_, trivial, rfl⟩
      rw [Model.replay, Model.replayWith_of_none hsamples]
      rfl
    | some samples =>
      obtain ⟨nodes, last, hnodes, -, hreplay, -⟩ :=
        Model.replay_eq_replayed h halike hsamples start stop
      have hstream := Model.map_snd_streamOf hsound hsamples (length_of_mapM hnodes) start stop
      obtain ⟨forest, hevents, hforest⟩ := exists_forest_replayed last hsound.wellPlaced
        hsound.collector_ne_zero (hstream ▸ htimes)
      exact ⟨forest, hevents ▸ hreplay, hforest⟩
  obtain ⟨forest, hreplay, hlies, hframes⟩ := hforest
  refine ⟨forest, hreplay, ?_, forest.openings_events, fun index frame hframe hdeep =>
    Forest.exists_outer hlies hframe hdeep⟩
  rw [frameRows, hreplay, ok_bind, hframes]
  rfl

theorem frameRows_preorder_interruptedCall :
    ∃ (model : Model Number) (forest : Forest Number),
      Model.load (interruptedCall (.int 4)) false = .ok model ∧
      (∀ position, model.system.collector = some position →
        Model.isAlike model.arena position = true) ∧
      ((model.replayTimes none none).Pairwise fun earlier later =>
        Scalar.lt earlier later = true) ∧
      model.replay .null .null = .ok forest.events ∧
      frameRows model .null .null = .ok (forest.rows.map (frameRow model.arena)) ∧
      forest.events.filterMap opening? = forest.rows.map FrameRow.opening ∧
      (∀ (index : Nat) (frame : FrameRow Number),
        forest.rows[index]? = some frame → 0 < frame.depth →
          ∃ outer, (forest.outers none)[index]? = some (some outer) ∧
            nearestAbove frame.depth (forest.rows.take index) = some outer) ∧
      forest.rows.length = 3 := by
  have hchecked : (do
      let model ← Model.load (interruptedCall (.int 4)) false
      let rows ← frameRows model .null .null
      return (model.system.collector.all (Model.isAlike model.arena),
        decide ((model.replayTimes none none).Pairwise fun earlier later =>
          Scalar.lt earlier later = true), rows.length)) = .ok (true, true, 3) := by
    decide +kernel
  obtain ⟨model, hload, hchecks⟩ := bind_eq_ok.mp hchecked
  obtain ⟨rows, hrows, hchecks⟩ := bind_eq_ok.mp hchecks
  simp only [pure_eq_ok, Prod.mk.injEq, decide_eq_true_eq] at hchecks
  obtain ⟨hall, htimes, hcount⟩ := hchecks
  have halike : ∀ position, model.system.collector = some position →
      Model.isAlike model.arena position = true := (Option.all_eq_true _ _).mp hall
  obtain ⟨forest, hreplay, hframes, hopenings, houters⟩ :=
    frameRows_preorder hload halike none none htimes
  refine ⟨model, forest, hload, halike, htimes, hreplay, hframes, hopenings, houters, ?_⟩
  rw [show rows = _ from Except.ok.inj (hrows.symm.trans hframes), List.length_map] at hcount
  exact hcount

/-- **Where the id of a collection has no value, six frames open, and four of them have a row.** -/
theorem frameRows_unclosed :
    ∃ model events rows,
      Model.load (interruptedCall (.num (.undefined 0))) false = .ok model ∧
      ((model.replayTimes none none).Pairwise fun earlier later =>
        Scalar.lt earlier later = true) ∧
      model.replay .null .null = .ok events ∧ frameRows model .null .null = .ok rows ∧
      (events.filterMap opening?).length = 6 ∧ rows.length = 4 := by
  have hchecked : (do
      let model ← Model.load (interruptedCall (.num (.undefined 0))) false
      let events ← model.replay .null .null
      let rows ← frameRows model .null .null
      return (decide ((model.replayTimes none none).Pairwise fun earlier later =>
        Scalar.lt earlier later = true), (events.filterMap opening?).length, rows.length)) =
      .ok (true, 6, 4) := by
    decide +kernel
  obtain ⟨model, hload, hchecks⟩ := bind_eq_ok.mp hchecked
  obtain ⟨events, hevents, hchecks⟩ := bind_eq_ok.mp hchecks
  obtain ⟨rows, hrows, hchecks⟩ := bind_eq_ok.mp hchecks
  simp only [pure_eq_ok, Prod.mk.injEq, decide_eq_true_eq] at hchecks
  exact ⟨model, events, rows, hload, hchecks.1, hevents, hrows, hchecks.2⟩

end Report
end SampledProfile
