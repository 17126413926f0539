/-
# Opening and closing are brackets

What a replay reports can be checked by someone who sees nothing but the reports and the times of
the samples.  Such a reader keeps a `Bracket` for every frame that was opened and not closed yet,
and asks of every report (`Reports`)

* that an opening is at the depth of so many open frames, and at the time of the sample;
* that a closing names the frame that was opened last, with its node, its depth and its start, that
  the duration is the time since, and that what the frames directly on it took is not its own.

`Bracketed` asks this of all reports, sample by sample and at the end.

* `replayed_bracketed`: what the effective stacks say is so, and leaves no frame open;
* `Model.exists_bracketed`: every loaded model has such a replay of every window, also with buffers
  that have only the levels from zero to one more than the tree is deep.
-/
import SampledProfile.Proofs.Replay.Windows

namespace SampledProfile

open Outcome

variable {α : Type} [Scalar α]

/-! ## 1. What a reader of the reports asks -/

/-- A frame as its opening was reported. -/
structure Bracket (α : Type) where
  depth : Nat
  node : Nat
  start : α
  /-- The durations of the frames that were closed directly on it, in the order of closing. -/
  nested : List α

/-- A frame was closed directly on the innermost one. -/
def nest (duration : α) : List (Bracket α) → List (Bracket α)
  | [] => []
  | bracket :: below => { bracket with nested := bracket.nested ++ [duration] } :: below

/-- One report at a time takes the open frames to others. -/
inductive Reports (time : α) : List (Bracket α) → Event α → List (Bracket α) → Prop
  | opened (node : Nat) (brackets : List (Bracket α)) :
      Reports time brackets (.opened brackets.length node time)
        (⟨brackets.length, node, time, []⟩ :: brackets)
  | closed (bracket : Bracket α) (below : List (Bracket α)) :
      Reports time (bracket :: below)
        (.closed bracket.depth bracket.node bracket.start (time - bracket.start)
          (time - bracket.start - bracket.nested.foldl (· + ·) 0))
        (nest (time - bracket.start) below)

/-- The reports of one sample. -/
inductive ReportsAll (time : α) : List (Bracket α) → List (Event α) → List (Bracket α) → Prop
  | nil (brackets : List (Bracket α)) : ReportsAll time brackets [] brackets
  | cons {brackets next last : List (Bracket α)} {event : Event α} {events : List (Event α)} :
      Reports time brackets event next → ReportsAll time next events last →
        ReportsAll time brackets (event :: events) last

/-- The reports of all samples, of which the times are given. -/
inductive Bracketed : List (Bracket α) → List α → List (Event α) → List (Bracket α) → Prop
  | nil (brackets : List (Bracket α)) : Bracketed brackets [] [] brackets
  | cons {brackets next last : List (Bracket α)} {time : α} {times : List α}
      {events rest : List (Event α)} :
      ReportsAll time brackets events next → Bracketed next times rest last →
        Bracketed brackets (time :: times) (events ++ rest) last

theorem ReportsAll.append {time : α} {brackets next last : List (Bracket α)}
    {events rest : List (Event α)} (h : ReportsAll time brackets events next)
    (hrest : ReportsAll time next rest last) : ReportsAll time brackets (events ++ rest) last := by
  induction h with
  | nil => exact hrest
  | cons hevent _ ih => exact .cons hevent (ih hrest)

/-! ## 2. Brackets and open frames -/

/-- The brackets are what is known of some open frames. -/
inductive Matches : List (OpenFrame α) → List (Bracket α) → Prop
  | nil : Matches [] []
  | cons {frames : List (OpenFrame α)} {brackets : List (Bracket α)} (activation : Activation)
      (start : α) (nested : List α) : Matches frames brackets →
        Matches (⟨activation, start, nested.foldl (· + ·) 0⟩ :: frames)
          (⟨brackets.length, activation.node, start, nested⟩ :: brackets)

theorem Matches.length_eq {frames : List (OpenFrame α)} {brackets : List (Bracket α)}
    (h : Matches frames brackets) : frames.length = brackets.length := by
  induction h with
  | nil => rfl
  | cons _ _ _ _ ih => rw [List.length_cons, List.length_cons, ih]

theorem Matches.charge {frames : List (OpenFrame α)} {brackets : List (Bracket α)}
    (h : Matches frames brackets) (duration : α) :
    Matches (SampledProfile.charge duration frames) (nest duration brackets) := by
  cases h with
  | nil => exact .nil
  | cons activation start nested hbelow =>
    have hsum : nested.foldl (· + ·) 0 + duration = (nested ++ [duration]).foldl (· + ·) 0 := by
      rw [List.foldl_append]
      rfl
    simp only [SampledProfile.charge, nest, hsum]
    exact .cons activation start _ hbelow

theorem exists_closeMany (time : α) : ∀ (count : Nat) {frames : List (OpenFrame α)}
    {brackets : List (Bracket α)}, Matches frames brackets →
    ∃ next, ReportsAll time brackets (closeMany time count frames).1 next ∧
      Matches (closeMany time count frames).2 next
  | 0, _, brackets, h => ⟨brackets, .nil brackets, h⟩
  | _ + 1, _, _, .nil => ⟨[], .nil [], .nil⟩
  | count + 1, _, _ :: below, .cons activation start nested h => by
    obtain ⟨next, hreports, hmatches⟩ :=
      exists_closeMany time count (h.charge (time - start))
    refine ⟨next, ?_, hmatches⟩
    rw [closeMany, h.length_eq]
    exact .cons (.closed ⟨below.length, activation.node, start, nested⟩ below) hreports

theorem exists_openMany (time : α) : ∀ (activations : List Activation)
    {frames : List (OpenFrame α)} {brackets : List (Bracket α)}, Matches frames brackets →
    ∃ next, ReportsAll time brackets (openMany time activations frames).1 next ∧
      Matches (openMany time activations frames).2 next
  | [], _, brackets, h => ⟨brackets, .nil brackets, h⟩
  | activation :: rest, frames, brackets, h => by
    obtain ⟨next, hreports, hmatches⟩ :=
      exists_openMany time rest (Matches.cons activation time [] h)
    refine ⟨next, ?_, hmatches⟩
    rw [openMany, h.length_eq]
    exact .cons (.opened activation.node brackets) hreports

theorem exists_change (time : α) (old new : List Activation) {frames : List (OpenFrame α)}
    {brackets : List (Bracket α)} (h : Matches frames brackets) :
    ∃ next, ReportsAll time brackets (change time old new frames).1 next ∧
      Matches (change time old new frames).2 next := by
  obtain ⟨kept, hclosed, hkept⟩ := exists_closeMany time (old.length - shared old new) h
  obtain ⟨next, hopened, hnext⟩ := exists_openMany time (new.drop (shared old new)) hkept
  exact ⟨next, hclosed.append hopened, hnext⟩

/-! ## 3. All samples -/

section Run

variable {β : Type} {arena : Arena β α} {collector : Option Nat}

/-- The frames that are open run the stack of the last sample. -/
theorem map_activation_sampled (h : arena.WellPlaced) (hroot : collector ≠ some 0)
    {history : List Nat} (sample : Nat × α) {frames : List (OpenFrame α)}
    (hframes : frames.map OpenFrame.activation = (effectiveOf arena collector history).reverse) :
    (sampled arena collector history sample frames).2.map OpenFrame.activation =
      (effectiveOf arena collector (sample.1 :: history)).reverse := by
  unfold sampled
  split
  · rename_i hsame
    rw [hsame, effectiveOf_again h hroot, hframes]
  · exact map_activation_change sample.2 _ hframes

theorem exists_sampled (history : List Nat) (sample : Nat × α) {frames : List (OpenFrame α)}
    {brackets : List (Bracket α)} (h : Matches frames brackets) :
    ∃ next, ReportsAll sample.2 brackets (sampled arena collector history sample frames).1 next ∧
      Matches (sampled arena collector history sample frames).2 next := by
  unfold sampled
  split
  · exact ⟨brackets, .nil brackets, h⟩
  · exact exists_change sample.2 _ _ h

/-- **What the effective stacks say opens and closes like brackets.** -/
theorem replayed_bracketed (last : α) (h : arena.WellPlaced) (hroot : collector ≠ some 0) :
    ∀ (stream : List (Nat × α)) {history : List Nat} {frames : List (OpenFrame α)}
      {brackets : List (Bracket α)},
    frames.map OpenFrame.activation = (effectiveOf arena collector history).reverse →
    Matches frames brackets →
    Bracketed brackets (stream.map Prod.snd ++ [last])
      (replayed arena collector last history stream frames) []
  | [], history, frames, brackets, hframes, hmatches => by
    have hlength : frames.length = (effectiveOf arena collector history).length := by
      simpa using congrArg List.length hframes
    obtain ⟨next, hreports, hnext⟩ :=
      exists_closeMany last (effectiveOf arena collector history).length hmatches
    obtain rfl : next = [] := by
      rw [← List.length_eq_zero_iff, ← hnext.length_eq, length_closeMany, hlength, Nat.sub_self]
    have hend := Bracketed.cons hreports (.nil [])
    rwa [List.append_nil] at hend
  | sample :: rest, history, frames, brackets, hframes, hmatches => by
    obtain ⟨next, hreports, hnext⟩ := exists_sampled history sample hmatches
    exact .cons hreports
      (replayed_bracketed last h hroot rest (map_activation_sampled h hroot sample hframes) hnext)

end Run

/-! ## 4. Loaded models -/

namespace Model

variable {model : Model α}

/-- The times at which a replay of a window reports: those of its samples, and the end. -/
def stepTimes (model : Model α) (start stop : Option α) : List α :=
  match model.samples with
  | none => []
  | some samples =>
    let last := model.stopIndex samples.length start stop
    (model.timestamps.take last).drop (model.firstIndex start) ++ model.timestamps[last]?.toList

/-- **Every window of a loaded profile has a replay, for which two levels more than the tree is deep
are enough, and its reports are brackets.** -/
theorem exists_bracketed {profile : Value α} {keepNatives : Bool}
    (h : load profile keepNatives = .ok model)
    (halike : ∀ position, model.system.collector = some position →
      isAlike model.arena position = true)
    (start stop : Option α) {scratch : Scratch α}
    (hstarts : model.arena.maxDepth + 2 ≤ scratch.starts.size)
    (hinner : model.arena.maxDepth + 2 ≤ scratch.inner.size) :
    ∃ left events,
      model.replayWith scratch (.ofOption (start.map .num)) (.ofOption (stop.map .num)) =
        .ok (left, events) ∧
      Bracketed [] (model.stepTimes start stop) events [] := by
  have hsound := sound_of_load h
  cases hsamples : model.samples with
  | none =>
    refine ⟨scratch, [], by rw [replayWith, hsamples], ?_⟩
    rw [stepTimes, hsamples]
    exact .nil []
  | some samples =>
    obtain ⟨nodes, last, hnodes, hlast, hreplay⟩ :=
      exists_replayWith hsound halike hsamples start stop
    obtain ⟨left, hleft⟩ := hreplay scratch hstarts hinner
    refine ⟨left, _, hleft, ?_⟩
    have hcount : nodes.length = samples.length := length_of_mapM hnodes
    have hb := stopIndex_le model samples start stop
    have htimes : model.stepTimes start stop =
        (model.streamOf nodes start stop).map Prod.snd ++ [last] := by
      rw [stepTimes, hsamples, streamOf, List.map_drop, List.map_take, Samples.map_snd_zip_eq,
        hcount, List.take_take]
      simp only [hlast, Option.toList_some]
      rw [hsound.times samples hsamples, Nat.min_eq_left (by omega)]
    rw [htimes]
    exact replayed_bracketed last hsound.wellPlaced hsound.collector_ne_zero _ rfl .nil

theorem exists_bracketed_collections :
    ∃ model left events, load (collections (.int 2) 3) false = .ok model ∧
      model.replayWith (Scratch.blank (model.arena.maxDepth + 2)) .null .null =
        .ok (left, events) ∧
      Bracketed [] (model.stepTimes none none) events [] := by
  have hchecked : (do
      let model ← load (collections (.int 2) 3) false
      return model.system.collector.all (isAlike model.arena)) = .ok true := by
    decide +kernel
  obtain ⟨model, hload, hchecks⟩ := bind_eq_ok.mp hchecked
  have halike : ∀ position, model.system.collector = some position →
      isAlike model.arena position = true := fun position hposition => by
    simpa [hposition] using pure_eq_ok.mp hchecks
  obtain ⟨left, events, h⟩ := exists_bracketed hload halike none none
    (Scratch.size_starts_blank (model.arena.maxDepth + 2)).ge
    (Scratch.size_inner_blank (model.arena.maxDepth + 2)).ge
  exact ⟨model, left, events, hload, h⟩

/-- **Where the id of a collection has no value, enough samples of it leave the buffers.** -/
theorem replay_outOfRange_collections :
    ∃ model, load (collections (.num (.undefined 0)) 4) false = .ok model ∧
      model.replay .null .null = .error .outOfRange := by
  have hfault : (load (collections (.num (.undefined 0)) 4) false).map
      (fun model => (model.replay .null .null).map List.length) = .ok (.error .outOfRange) := by
    decide +kernel
  obtain ⟨model, hload, hreplay⟩ := map_eq_ok.mp hfault
  refine ⟨model, hload, ?_⟩
  cases hevents : model.replay .null .null with
  | ok events =>
    rw [hevents] at hreplay
    cases hreplay
  | error fault =>
    rw [hevents] at hreplay
    cases hreplay
    rfl

end Model
end SampledProfile
