/-
# What buffers hold does not matter

The buffers of a replay outlive it, and nobody clears them.  So a replay finds there what earlier
ones have left, and these may have broken off anywhere.

Two stacks MATCH (`Stack.Matches`) if their buffers have the same sizes and hold the same at every
level of an open frame.  What lies above the open frames may differ, since a frame is written when
it opens.  Level zero may differ too: what is charged to it is never read, for no frame
closes there.  Every step of a replay reports the same of two stacks that match and leaves them
matching, also where it fails.  So

* `Replay.alike_run`: a replay depends on the sizes of its buffers only;
* `Model.replay_reused`: a loaded model reports the same with any buffers as with cleared ones.
-/
import SampledProfile.Proofs.Joined

namespace SampledProfile

open Outcome

/-! ## 1. Stacks that match -/

section Buffers

variable {α : Type}

/-- How many levels the buffers have. -/
def Scratch.sizes (scratch : Scratch α) : Nat × Nat := (scratch.starts.size, scratch.inner.size)

/-- The buffers with zero at every level. -/
def Scratch.cleared [Zero α] (scratch : Scratch α) : Scratch α :=
  ⟨Array.replicate scratch.starts.size 0, Array.replicate scratch.inner.size 0⟩

@[simp] theorem Scratch.sizes_cleared [Zero α] (scratch : Scratch α) :
    scratch.cleared.sizes = scratch.sizes := by
  simp [cleared, sizes]

@[simp] theorem Scratch.sizes_blank [Zero α] (size : Nat) :
    (Scratch.blank size : Scratch α).sizes = (size, size) := by
  simp [blank, sizes]

/-- Two stacks with buffers of some sizes and the same open frames. -/
structure Stack.Matches (sizes : Nat × Nat) (stack other : Stack α) : Prop where
  ownSizes : stack.sizes = sizes
  otherSizes : other.sizes = sizes
  top : other.top = stack.top
  /-- At the levels of open frames both hold the same. -/
  starts : ∀ level, 0 < level → level ≤ stack.top → other.starts[level]? = stack.starts[level]?
  inner : ∀ level, 0 < level → level ≤ stack.top → other.inner[level]? = stack.inner[level]?

/-- Before a frame has opened there is nothing to hold. -/
theorem Stack.matches_empty {scratch other : Scratch α} (h : other.sizes = scratch.sizes) :
    Stack.Matches scratch.sizes ⟨scratch, 0⟩ ⟨other, 0⟩ :=
  ⟨rfl, h, rfl, fun _ hpos hle => absurd hpos (Nat.not_lt.mpr hle),
    fun _ hpos hle => absurd hpos (Nat.not_lt.mpr hle)⟩

namespace Stack

variable {sizes : Nat × Nat} {stack other : Stack α}

theorem Matches.size_starts (h : Matches sizes stack other) :
    other.starts.size = stack.starts.size :=
  congrArg Prod.fst (h.otherSizes.trans h.ownSizes.symm)

theorem Matches.size_inner (h : Matches sizes stack other) :
    other.inner.size = stack.inner.size :=
  congrArg Prod.snd (h.otherSizes.trans h.ownSizes.symm)

/-- An entry that is written alike in two buffers. -/
theorem getElem?_set_congr {buffer copy : Array α} (hsize : copy.size = buffer.size)
    {place level : Nat} (hlevel : level ≠ place → copy[level]? = buffer[level]?) (value : α) :
    (copy.setIfInBounds place value)[level]? = (buffer.setIfInBounds place value)[level]? := by
  rw [Array.getElem?_setIfInBounds, Array.getElem?_setIfInBounds, hsize]
  by_cases heq : place = level
  · rw [if_pos heq, if_pos heq]
  · rw [if_neg heq, if_neg heq]
    exact hlevel (Ne.symm heq)

variable [Scalar α]

/-- A frame that opens is written at its level, whatever was there. -/
theorem Matches.push (h : Matches sizes stack other) (time : α) :
    Alike (Matches sizes) (stack.push time) (other.push time) := by
  unfold Stack.push
  dsimp only
  rw [h.top, h.size_starts, h.size_inner]
  split
  · refine .ok ⟨?_, ?_, rfl, fun level hpos hle => ?_, fun level hpos hle => ?_⟩
    · simpa [Scratch.sizes] using h.ownSizes
    · simpa [Scratch.sizes] using h.otherSizes
    · exact getElem?_set_congr h.size_starts
        (fun hne => h.starts level hpos (Nat.lt_succ_iff.mp (Nat.lt_of_le_of_ne hle hne))) _
    · exact getElem?_set_congr h.size_inner
        (fun hne => h.inner level hpos (Nat.lt_succ_iff.mp (Nat.lt_of_le_of_ne hle hne))) _
  · exact .error _

/-- Two stacks that match, and the same about them. -/
def MatchesWith {β : Type} (sizes : Nat × Nat) (left right : Stack α × β) : Prop :=
  Matches sizes left.1 right.1 ∧ right.2 = left.2

/-- A frame that closes is read at its own level.  The level below is charged; what it holds is
read only if a frame is open there. -/
theorem Matches.pop (h : Matches sizes stack other) (time : α) :
    Alike (MatchesWith sizes) (stack.pop time) (other.pop time) := by
  unfold Stack.pop
  rw [h.top]
  cases htop : stack.top with
  | zero => exact .error _
  | succ below =>
    have hin : below + 1 ≤ stack.top := Nat.le_of_eq htop.symm
    dsimp only
    rw [h.starts _ (Nat.succ_pos _) hin, h.inner _ (Nat.succ_pos _) hin]
    cases hstart : stack.starts[below + 1]? with
    | none => exact .error _
    | some start =>
      cases hnested : stack.inner[below + 1]? with
      | none => exact .error _
      | some nested =>
        have hlt : below + 1 < stack.inner.size := (Array.getElem?_eq_some_iff.mp hnested).1
        have hbelow : below < stack.inner.size := Nat.lt_of_succ_lt hlt
        have hother : below < other.inner.size := h.size_inner ▸ hbelow
        rw [Array.getElem?_eq_getElem hbelow, Array.getElem?_eq_getElem hother]
        refine .ok ⟨⟨?_, ?_, rfl, fun level hpos hle => ?_, fun level hpos hle => ?_⟩, rfl⟩
        · simpa [Scratch.sizes] using h.ownSizes
        · simpa [Scratch.sizes] using h.otherSizes
        · exact h.starts level hpos (hle.trans (Nat.le_of_succ_le hin))
        · have hsame := h.inner level hpos (hle.trans (Nat.le_of_succ_le hin))
          by_cases heq : below = level
          · subst heq
            rw [Array.getElem?_eq_getElem hbelow, Array.getElem?_eq_getElem hother] at hsame
            rw [Option.some.inj hsame]
            exact getElem?_set_congr h.size_inner (fun hne => absurd rfl hne) _
          · rwa [Array.getElem?_setIfInBounds_ne heq, Array.getElem?_setIfInBounds_ne heq]

theorem Matches.close (h : Matches sizes stack other) (depth node : Nat) (time : α) :
    Alike (MatchesWith sizes) (stack.close depth node time) (other.close depth node time) :=
  (h.pop time).bind fun _ _ hpopped => .ok ⟨hpopped.1, congrArg
    (fun closed : α × α × α => Event.closed depth node closed.1 closed.2.1 closed.2.2) hpopped.2⟩

end Stack
end Buffers

/-! ## 2. Replays -/

namespace Replay

variable {β α : Type} [Scalar α] {arena : Arena β α} {collector : Option Nat}
  {alike : Nat → Bool} {sizes : Nat × Nat}

theorem alike_closeAll (time : α) : ∀ (nodes : List Nat) {stack other : Stack α},
    Stack.Matches sizes stack other →
      Alike (Stack.MatchesWith sizes) (closeAll arena time nodes stack)
        (closeAll arena time nodes other)
  | [], _, _, h => .ok ⟨h, rfl⟩
  | node :: rest, stack, other, h => by
    refine (h.close (arena.depth node - 1) node time).bind fun closed closed' hclosed => ?_
    refine (alike_closeAll time rest hclosed.1).bind fun left left' hleft => .ok ⟨hleft.1, ?_⟩
    rw [hclosed.2, hleft.2]

theorem alike_openAll (time : α) : ∀ (nodes : List Nat) {stack other : Stack α},
    Stack.Matches sizes stack other →
      Alike (Stack.MatchesWith sizes) (openAll arena time nodes stack)
        (openAll arena time nodes other)
  | [], _, _, h => .ok ⟨h, rfl⟩
  | node :: rest, stack, other, h => by
    refine (h.push time).bind fun pushed pushed' hpushed => ?_
    refine (alike_openAll time rest hpushed).bind fun left left' hleft => .ok ⟨hleft.1, ?_⟩
    rw [hleft.2]

/-- Two replays that stand at one place, on stacks that match. -/
structure Keeps (sizes : Nat × Nat) (state other : ReplayState α) : Prop where
  stack : Stack.Matches sizes state.stack other.stack
  previous : other.previous = state.previous
  interrupted : other.interrupted = state.interrupted

/-- Such replays, and the same reports. -/
def KeepsWith (sizes : Nat × Nat) (left right : ReplayState α × List (Event α)) : Prop :=
  Keeps sizes left.1 right.1 ∧ right.2 = left.2

variable {state other : ReplayState α}

theorem Keeps.resume (h : Keeps sizes state other) (time : α) :
    Alike (KeepsWith sizes) (Replay.resume arena collector time state)
      (Replay.resume arena collector time other) := by
  unfold Replay.resume
  rw [h.interrupted, h.previous]
  cases state.interrupted with
  | none => exact .ok ⟨h, rfl⟩
  | some node =>
    dsimp only
    split
    · refine (h.stack.close (arena.depth node) state.previous time).bind fun _ _ hclosed => ?_
      exact .ok ⟨⟨hclosed.1, rfl, rfl⟩, by rw [hclosed.2]⟩
    · exact .ok ⟨h, rfl⟩

/-- One sample. -/
theorem Keeps.step (h : Keeps sizes state other) (sample : Nat × α) :
    Alike (KeepsWith sizes) (Replay.step arena collector alike sample state)
      (Replay.step arena collector alike sample other) := by
  unfold Replay.step
  dsimp only
  rw [h.previous]
  split
  · exact .ok ⟨h, rfl⟩
  split
  · refine (h.stack.push sample.2).bind fun _ _ hpushed => ?_
    exact .ok ⟨⟨hpushed, rfl, rfl⟩, rfl⟩
  · refine (h.resume sample.2).bind fun ⟨rested, ended⟩ ⟨rested', ended'⟩ ⟨hrested, hended⟩ => ?_
    obtain rfl : ended' = ended := hended
    dsimp only
    rw [hrested.previous, hrested.interrupted]
    refine (alike_closeAll sample.2 _ hrested.stack).bind fun closed closed' hclosed => ?_
    refine (alike_openAll sample.2 _ hclosed.1).bind fun opened opened' hopened => ?_
    exact .ok ⟨⟨hopened.1, rfl, rfl⟩, by rw [hclosed.2, hopened.2]⟩

/-- The end. -/
theorem Keeps.finish (h : Keeps sizes state other) (time : α) :
    Alike (Stack.MatchesWith sizes) (Replay.finish arena collector time state)
      (Replay.finish arena collector time other) := by
  refine (h.resume time).bind fun ⟨rested, ended⟩ ⟨rested', ended'⟩ ⟨hrested, hended⟩ => ?_
  obtain rfl : ended' = ended := hended
  dsimp only
  rw [hrested.previous]
  refine (alike_closeAll time _ hrested.stack).bind fun closed closed' hclosed => ?_
  exact .ok ⟨hclosed.1, by rw [hclosed.2]⟩

/-- Two results of replays: buffers of some sizes, and the same reports. -/
def LeavesWith (sizes : Nat × Nat) (left right : Scratch α × List (Event α)) : Prop :=
  left.1.sizes = sizes ∧ right.1.sizes = sizes ∧ right.2 = left.2

theorem alike_runFrom (stop : α) : ∀ (stream : List (Nat × α)) {state other : ReplayState α},
    Keeps sizes state other →
      Alike (LeavesWith sizes) (runFrom arena collector alike stop stream state)
        (runFrom arena collector alike stop stream other)
  | [], _, _, h =>
    (h.finish stop).bind fun _ _ hleft => .ok ⟨hleft.1.ownSizes, hleft.1.otherSizes, hleft.2⟩
  | sample :: rest, state, other, h => by
    refine (h.step sample).bind fun next next' hnext => ?_
    refine (alike_runFrom stop rest hnext.1).bind fun left left' hleft => ?_
    exact .ok ⟨hleft.1, hleft.2.1, by rw [hnext.2, hleft.2.2]⟩

/-- What two replays report at each sample is the same, also if they fail at one of them. -/
theorem reports_eq_of_keeps : ∀ (stream : List (Nat × α)) {state other : ReplayState α},
    Keeps sizes state other →
      reports arena collector alike stream other = reports arena collector alike stream state
  | [], _, _, _ => rfl
  | sample :: rest, state, other, h => by
    have hstep : Alike (KeepsWith sizes) (step arena collector alike sample state)
        (step arena collector alike sample other) := h.step sample
    unfold reports
    generalize step arena collector alike sample state = first at hstep ⊢
    generalize step arena collector alike sample other = second at hstep ⊢
    cases hstep with
    | error fault => rfl
    | ok hnext =>
      dsimp only
      rw [hnext.2, reports_eq_of_keeps rest hnext.1]

variable {stream : List (Nat × α)} {scratch reused : Scratch α}

omit [Scalar α] in
theorem keeps_start (h : reused.sizes = scratch.sizes) :
    Keeps scratch.sizes ⟨⟨scratch, 0⟩, 0, none⟩ ⟨⟨reused, 0⟩, 0, none⟩ :=
  ⟨Stack.matches_empty h, rfl, rfl⟩

/-- **A replay depends on the sizes of its buffers only, not on what they hold**, and keeps these
sizes. -/
theorem alike_run (stop : α) (h : reused.sizes = scratch.sizes) :
    Alike (LeavesWith scratch.sizes) (run arena collector alike stream stop scratch)
      (run arena collector alike stream stop reused) :=
  alike_runFrom stop stream (keeps_start h)

theorem reportsOf_eq_of_sizes (h : reused.sizes = scratch.sizes) :
    reportsOf arena collector alike stream reused = reportsOf arena collector alike stream scratch :=
  reports_eq_of_keeps stream (keeps_start h)

end Replay

/-! ## 3. Models -/

namespace Model

variable {α : Type} [Scalar α] {model : Model α} {scratch reused : Scratch α}

theorem alike_replayWith (h : reused.sizes = scratch.sizes) (start stop : Value α) :
    Alike (Replay.LeavesWith scratch.sizes) (model.replayWith scratch start stop)
      (model.replayWith reused start stop) := by
  unfold replayWith
  split
  · exact .ok ⟨rfl, h, rfl⟩
  · exact .ok ⟨rfl, h, rfl⟩
  · refine .bind_same fun window _ => .bind_same fun stream _ => ?_
    exact Replay.alike_run window.2 h

theorem reportsWith_eq_of_sizes (h : reused.sizes = scratch.sizes) (start stop : Value α) :
    model.reportsWith reused start stop = model.reportsWith scratch start stop := by
  unfold reportsWith
  simp only [Replay.reportsOf_eq_of_sizes h]

/-- The nodes of the samples of a window are nodes of the tree. -/
theorem Sound.lt_size_of_mapM (h : model.Sound) {samples : List (Value α × α)}
    {stream : List (Nat × α)}
    (hstream : (samples.mapM fun sample => do
      return (← requirePosition model.names sample.1, sample.2)) = .ok stream) :
    ∀ sample ∈ stream, sample.1 < model.arena.size := by
  intro sample hsample
  obtain ⟨_, -, hfound⟩ := mem_of_mapM hstream hsample
  obtain ⟨node, hnode, hpair⟩ := bind_eq_ok.mp hfound
  obtain rfl := pure_eq_ok.mp hpair
  exact (of_positionOf h.names (positionOf_of_require hnode)).1

/-- Where the id of the collection equals itself, buffers that are large enough never run out, so
their sizes do not matter either. -/
theorem Sound.replayWith_congr (h : model.Sound)
    (halike : ∀ position, model.system.collector = some position →
      Model.isAlike model.arena position = true)
    (hroom : model.arena.maxDepth + 2 ≤ scratch.starts.size ∧
      model.arena.maxDepth + 2 ≤ scratch.inner.size)
    (hreused : model.arena.maxDepth + 2 ≤ reused.starts.size ∧
      model.arena.maxDepth + 2 ≤ reused.inner.size) (start stop : Value α) :
    (model.replayWith reused start stop).map Prod.snd =
      (model.replayWith scratch start stop).map Prod.snd := by
  have hcollector : ∀ position, model.system.collector = some position →
      position ≠ 0 ∧ Model.isAlike model.arena position = true := fun position hposition =>
    ⟨fun hzero => h.collector_ne_zero (hzero ▸ hposition), halike position hposition⟩
  unfold replayWith
  split
  · rfl
  · rfl
  · rename_i samples _ _
    cases hwindow : model.window samples start stop with
    | error fault => rfl
    | ok window =>
      cases hstream : (window.1.mapM fun sample => do
          return (← requirePosition model.names sample.1, sample.2)) with
      | error fault =>
        simp only [ok_bind, hstream]
        rfl
      | ok stream =>
        obtain ⟨left, hleft⟩ := Replay.exists_run window.2 h.wellPlaced hcollector hroom.1 hroom.2
          (h.lt_size_of_mapM hstream)
        obtain ⟨last, hlast⟩ := Replay.exists_run window.2 h.wellPlaced hcollector hreused.1
          hreused.2 (h.lt_size_of_mapM hstream)
        simp only [ok_bind, hstream, hleft, hlast, Except.map]

/-- **Reused buffers never leak into a replay.**  For any window, and whatever the two buffers hold,
a loaded model reports the same as with the buffers cleared.  That includes whether the replay
breaks off, and all samples reported on until it does.  The buffers keep their sizes, so it holds of
the next replay too.  With buffers of the size that a model makes for itself, all this is what its
first replay reports, and also with larger ones unless the id of the collection differs from itself.
A replay reads the model and gives no other one. -/
theorem replay_reused {profile : Value α} {keepNatives : Bool}
    (h : load profile keepNatives = .ok model)
    (hstarts : model.scratchSize ≤ scratch.starts.size)
    (hinner : model.scratchSize ≤ scratch.inner.size) (start stop : Value α) :
    (model.replayWith scratch start stop).map Prod.snd =
        (model.replayWith scratch.cleared start stop).map Prod.snd ∧
      model.reportsWith scratch start stop = model.reportsWith scratch.cleared start stop ∧
      (∀ left events, model.replayWith scratch start stop = .ok (left, events) →
        left.sizes = scratch.sizes) ∧
      (scratch.sizes = (model.scratchSize, model.scratchSize) ∨
          (∀ position, model.system.collector = some position →
            isAlike model.arena position = true) →
        (model.replayWith scratch start stop).map Prod.snd = model.replay start stop) := by
  have hevents : ∀ {other : Scratch α}, other.sizes = scratch.sizes →
      (model.replayWith scratch start stop).map Prod.snd =
        (model.replayWith other start stop).map Prod.snd := by
    intro other hsizes
    have halike : Alike (Replay.LeavesWith scratch.sizes) (model.replayWith scratch start stop)
        (model.replayWith other start stop) := alike_replayWith hsizes start stop
    generalize model.replayWith scratch start stop = first at halike ⊢
    generalize model.replayWith other start stop = second at halike ⊢
    cases halike with
    | error fault => rfl
    | ok hleft => exact congrArg Except.ok hleft.2.2.symm
  refine ⟨hevents scratch.sizes_cleared,
    (reportsWith_eq_of_sizes scratch.sizes_cleared start stop).symm,
    fun left events hleft => ?_, fun hfresh => ?_⟩
  · obtain ⟨_, -, hsizes, -⟩ := (alike_replayWith rfl start stop).exists_ok hleft
    exact hsizes
  · rcases hfresh with hsizes | halike
    · exact hevents (hsizes ▸ Scratch.sizes_blank _)
    · have hsize : model.arena.maxDepth + 2 ≤ model.scratchSize := Nat.le_succ _
      refine (sound_of_load h).replayWith_congr halike ?_
        ⟨hsize.trans hstarts, hsize.trans hinner⟩ start stop
      simpa using hsize

theorem replay_reused_splitCalls :
    ∃ model, load splitCalls false = .ok model ∧
      let scratch : Scratch Number := ⟨Array.replicate model.scratchSize (Scalar.ofInt 7),
        Array.replicate model.scratchSize (Scalar.ofInt 9)⟩
      (model.replayWith scratch .null .null).map Prod.snd = model.replay .null .null := by
  obtain ⟨model, hload⟩ :=
    exists_of_isOk (show (load splitCalls false).isOk = true by decide +kernel)
  let scratch : Scratch Number := ⟨Array.replicate model.scratchSize (Scalar.ofInt 7),
    Array.replicate model.scratchSize (Scalar.ofInt 9)⟩
  have hstarts : scratch.starts.size = model.scratchSize := Array.size_replicate
  have hinner : scratch.inner.size = model.scratchSize := Array.size_replicate
  obtain ⟨-, -, -, hfresh⟩ := replay_reused hload hstarts.ge hinner.ge .null .null
  exact ⟨model, hload, hfresh (.inl (Prod.ext hstarts hinner))⟩

end Model
end SampledProfile
