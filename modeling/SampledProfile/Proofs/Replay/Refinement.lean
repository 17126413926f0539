/-
# The replay goes by effective stacks

`Replay.run` reports what `replayed` says (`exists_run`), for every tree and every stream of samples
of its nodes, whatever the buffers held before.  What connects the two after some samples is
`Follows`:

* the stack has the open frames laid out in its buffers, and they run the effective stack;
* during a collection the interrupted node is the one whose frames lie below.

A collection that ends closes its frame before the paths are compared, and the effective stacks are
compared at once; `shared_collection` is why this is the same.
-/
import SampledProfile.Proofs.Replay.Stacks

namespace SampledProfile
namespace Replay

open Arena

variable {β α : Type} [Scalar α]

/-- After a history a replay stands where the stacks say. -/
structure Follows (arena : Arena β α) (collector : Option Nat) (room : Nat)
    (state : ReplayState α) (history : List Nat) (frames : List (OpenFrame α)) : Prop where
  lays : state.stack.Lays room frames
  previous : state.previous = history.headD 0
  interrupted : state.interrupted =
    if collector = some (history.headD 0) then some (base collector history) else none
  activations : frames.map OpenFrame.activation = (effectiveOf arena collector history).reverse

/-! ## 1. Moving from node to node -/

section Move

variable {arena : Arena β α} {room : Nat} {stack : Stack α} {frames : List (OpenFrame α)}
  (time : α)

/-- Any number of frames of a path can be closed. -/
theorem closeAll_path (h : arena.WellPlaced) (hlays : stack.Lays room frames) {node : Nat}
    (hn : node < arena.size)
    (hframes : frames.map OpenFrame.activation = (callsOf arena node).reverse) (kept : Nat) :
    ∃ next, closeAll arena time ((arena.path node).drop kept).reverse stack =
        .ok (next, (closeMany time ((callsOf arena node).length - kept) frames).1) ∧
      next.Lays room (closeMany time ((callsOf arena node).length - kept) frames).2 := by
  have hlength : frames.length = (arena.path node).length := by
    simpa [callsOf] using congrArg List.length hframes
  have hcount : ((arena.path node).drop kept).reverse.length =
      (callsOf arena node).length - kept := by simp [callsOf]
  rw [← hcount]
  refine closeAll_eq arena time _ hlays ?_ fun index other hother => ?_
  · rw [hframes, callsOf, ← List.map_reverse]
    exact (List.reverse_prefix.mpr (List.drop_suffix _ _)).map _
  · have hindex : index < (arena.path node).length - kept := by
      simpa using (List.getElem?_eq_some_iff.mp hother).1
    rw [List.getElem?_reverse (by simpa using hindex), List.getElem?_drop] at hother
    rw [h.depth_getElem?_path node hn _ other hother, hlength, List.length_drop]
    omega

/-- From the frames of one node to those of another. -/
theorem exists_move (h : arena.WellPlaced) (hroom : arena.maxDepth + 2 ≤ room)
    (hlays : stack.Lays room frames) {old new : Nat} (ho : old < arena.size)
    (hn : new < arena.size)
    (hframes : frames.map OpenFrame.activation = (callsOf arena old).reverse) :
    ∃ kept closed next opened,
      closeAll arena time (arena.move old new).1 stack = .ok (kept, closed) ∧
      openAll arena time (arena.move old new).2 kept = .ok (next, opened) ∧
      (change time (callsOf arena old) (callsOf arena new) frames).1 = closed ++ opened ∧
      next.Lays room (change time (callsOf arena old) (callsOf arena new) frames).2 := by
  rw [h.move_eq ho hn]
  simp only [change, shared_callsOf]
  generalize hk : shared (arena.path old) (arena.path new) = k
  obtain ⟨kept, hclose, hkept⟩ := closeAll_path time h hlays ho hframes k
  -- the frames that stay are those of the common prefix
  have hcount : (closeMany time ((callsOf arena old).length - k) frames).2.length = k := by
    have hle := shared_le_length (arena.path old) (arena.path new)
    have hlength := congrArg List.length hframes
    rw [List.length_map, List.length_reverse] at hlength
    have hcalls : (callsOf arena old).length = (arena.path old).length := List.length_map _
    rw [length_closeMany]
    omega
  have hshort : k ≤ (arena.path new).length := by
    rw [← hk, shared_comm]
    exact shared_le_length _ _
  have hmost := arena.depth_le_maxDepth new
  have hnew := h.length_path new hn
  obtain ⟨next, hopen, hnext⟩ := openAll_eq arena time ((arena.path new).drop k) hkept
    (by rw [hcount, List.length_drop]; omega) fun index node hnode => by
      rw [List.getElem?_drop] at hnode
      rw [hcount, h.depth_getElem?_path new hn _ node hnode]
  rw [List.map_drop] at hopen hnext
  exact ⟨kept, _, next, _, hclose, hopen, rfl, hnext⟩

end Move

/-! ## 2. One sample -/

section Step

variable {arena : Arena β α} {collector : Option Nat} {alike : Nat → Bool} {room : Nat}
  {state : ReplayState α} {history : List Nat} {frames : List (OpenFrame α)}

/-- How many frames the end of a collection closes. -/
def collecting (collector : Option Nat) (history : List Nat) : Nat :=
  if collector = some (history.headD 0) then 1 else 0

omit [Scalar α] in
/-- What is open, in terms of the node below all collections. -/
theorem Follows.activations_eq (h : arena.WellPlaced) (hroot : collector ≠ some 0)
    (hs : Follows arena collector room state history frames) :
    frames.map OpenFrame.activation =
      (if collector = some (history.headD 0) then
        [Activation.collection (history.headD 0)] else []) ++
      (callsOf arena (base collector history)).reverse := by
  rw [hs.activations, effectiveOf_eq h hroot, List.reverse_append]
  split <;> rfl

omit [Scalar α] in
/-- Another sample of the same node changes nothing. -/
theorem Follows.again (h : arena.WellPlaced) (hroot : collector ≠ some 0)
    (hs : Follows arena collector room state history frames) :
    Follows arena collector room state (history.headD 0 :: history) frames := by
  refine ⟨hs.lays, hs.previous, ?_, ?_⟩
  · rw [hs.interrupted, List.headD_cons, base_again]
  · rw [hs.activations, effectiveOf_again h hroot]

/-- Below a collection that ends the frames of a node are open. -/
theorem Follows.activations_closeMany (time : α) (h : arena.WellPlaced) (hroot : collector ≠ some 0)
    (hs : Follows arena collector room state history frames) :
    (closeMany time (collecting collector history) frames).2.map OpenFrame.activation =
      (callsOf arena (base collector history)).reverse := by
  rw [map_activation_closeMany, hs.activations_eq h hroot, collecting]
  split <;> rfl

omit [Scalar α] in
theorem length_effectiveOf (h : arena.WellPlaced) (hroot : collector ≠ some 0)
    (history : List Nat) :
    (effectiveOf arena collector history).length =
      collecting collector history + (callsOf arena (base collector history)).length := by
  rw [effectiveOf_eq h hroot, collecting]
  split <;> simp [Nat.add_comm]

/-- A collection ends by closing its frame. -/
theorem exists_resume (time : α) (h : arena.WellPlaced) (hroot : collector ≠ some 0)
    (hs : Follows arena collector room state history frames)
    (hb : base collector history < arena.size) :
    ∃ next, resume arena collector time state =
        .ok (next, (closeMany time (collecting collector history) frames).1) ∧
      next.stack.Lays room (closeMany time (collecting collector history) frames).2 ∧
      next.previous = base collector history ∧ next.interrupted = none := by
  have hopen := hs.activations_eq h hroot
  have hinterrupted := hs.interrupted
  by_cases hc : collector = some (history.headD 0)
  · rw [if_pos hc] at hopen hinterrupted
    rw [List.singleton_append] at hopen
    obtain ⟨frame, below, rfl, hactivation, hbelow⟩ := List.map_eq_cons_iff.mp hopen
    have hdepth : arena.depth (base collector history) = below.length := by
      have hlength := congrArg List.length hbelow
      simp only [List.length_map, List.length_reverse, callsOf] at hlength
      rw [hlength]
      exact (h.length_path _ hb).symm
    obtain ⟨next, hclose, hnext⟩ := hs.lays.exists_close
      (arena.depth (base collector history)) state.previous time
    refine ⟨⟨next, base collector history, none⟩, ?_, ?_, rfl, rfl⟩
    · rw [hs.previous, hdepth] at hclose
      rw [collecting, if_pos hc, resume, hinterrupted, hs.previous]
      simp only [if_pos hc, hdepth, hclose, bind, Except.bind, pure, Except.pure, closeMany,
        hactivation, Activation.node]
    · rwa [collecting, if_pos hc]
  · rw [if_neg hc] at hinterrupted
    refine ⟨state, ?_, ?_, ?_, hinterrupted⟩
    · rw [collecting, if_neg hc, resume, hinterrupted]
      rfl
    · rw [collecting, if_neg hc]
      exact hs.lays
    · rw [hs.previous, base_of_ne hc]

/-- The end of a collection and the change of paths are one change of effective stacks. -/
theorem change_eq (time : α) (h : arena.WellPlaced) (hroot : collector ≠ some 0) (node : Nat) :
    change time (effectiveOf arena collector history) (callsOf arena node) frames =
      let ended := closeMany time (collecting collector history) frames
      let moved := change time (callsOf arena (base collector history)) (callsOf arena node) ended.2
      (ended.1 ++ moved.1, moved.2) := by
  have hshared : shared (effectiveOf arena collector history) (callsOf arena node) =
      shared (callsOf arena (base collector history)) (callsOf arena node) := by
    rw [effectiveOf_eq h hroot]
    split
    · rw [callsOf, callsOf, shared_collection, ← shared_callsOf]
      rfl
    · rw [List.append_nil]
  have hle := shared_le_length (callsOf arena (base collector history)) (callsOf arena node)
  rw [change, hshared, length_effectiveOf h hroot, Nat.add_sub_assoc hle, closeMany_add]
  simp [change]

/-- A sample of a node that is no collection. -/
theorem exists_step_call (node : Nat) (time : α) (h : arena.WellPlaced) (hroot : collector ≠ some 0)
    (hroom : arena.maxDepth + 2 ≤ room)
    (hs : Follows arena collector room state history frames)
    (hb : base collector history < arena.size) (hn : node < arena.size)
    (hcall : collector ≠ some node) (hother : ¬ (node = state.previous && alike node) = true) :
    ∃ next, step arena collector alike (node, time) state =
        .ok (next, (change time (effectiveOf arena collector history)
          (callsOf arena node) frames).1) ∧
      Follows arena collector room next (node :: history)
        (change time (effectiveOf arena collector history) (callsOf arena node) frames).2 := by
  obtain ⟨rested, hresume, hlays, hprevious, hinterrupted⟩ := exists_resume time h hroot hs hb
  have hopen := hs.activations_closeMany time h hroot
  obtain ⟨kept, closed, last, opened, hclose, hopened, hevents, hlast⟩ :=
    exists_move time h hroom hlays hb hn hopen
  refine ⟨⟨last, node, none⟩, ?_, ?_⟩
  · rw [step, if_neg hother, if_neg hcall, hresume, change_eq time h hroot]
    simp only [bind, Except.bind, hprevious, hclose, hopened, hinterrupted, pure, Except.pure,
      hevents, List.append_assoc]
  · rw [change_eq time h hroot]
    refine ⟨hlast, rfl, by rw [List.headD_cons, if_neg hcall], ?_⟩
    rw [effectiveOf, effective_eq h, if_neg hcall]
    exact map_activation_change time _ hopen

/-- A sample of the garbage collection. -/
theorem exists_step_collection (node : Nat) (time : α) (h : arena.WellPlaced)
    (hroot : collector ≠ some 0) (hroom : arena.maxDepth + 2 ≤ room)
    (hs : Follows arena collector room state history frames)
    (hb : base collector history < arena.size) (hcollector : collector = some node)
    (hother : node ≠ history.headD 0) :
    ∃ next, step arena collector alike (node, time) state =
        .ok (next, (change time (effectiveOf arena collector history)
          (effective arena collector history node) frames).1) ∧
      Follows arena collector room next (node :: history)
        (change time (effectiveOf arena collector history)
          (effective arena collector history node) frames).2 := by
  have hcall : collector ≠ some (history.headD 0) := fun hc =>
    hother (Option.some.inj (hcollector.symm.trans hc))
  have hprevious : state.previous = base collector history := by
    rw [hs.previous, base_of_ne hcall]
  have hold : effectiveOf arena collector history = callsOf arena (base collector history) := by
    rw [effectiveOf_eq h hroot, if_neg hcall, List.append_nil]
  have hnew : effective arena collector history node =
      callsOf arena (base collector history) ++ [.collection node] := by
    rw [effective_eq h, if_pos hcollector]
  have hlength : frames.length = arena.depth (base collector history) := by
    have hlength := congrArg List.length (hs.activations.trans (congrArg _ hold))
    simp only [List.length_map, List.length_reverse, callsOf] at hlength
    rw [hlength, h.length_path _ hb]
  have hmost := arena.depth_le_maxDepth (base collector history)
  obtain ⟨next, hpush, hnext⟩ := hs.lays.exists_push (by omega) (.collection node) time
  have hchange : change time (effectiveOf arena collector history)
      (effective arena collector history node) frames =
        openMany time [.collection node] frames := by
    rw [hold, hnew, change, shared_self_append]
    simp [closeMany]
  refine ⟨⟨next, node, some state.previous⟩, ?_, ?_⟩
  · have hsame : ¬ (node = state.previous && alike node) = true := by
      rw [hs.previous, decide_eq_false hother]
      exact Bool.false_ne_true
    rw [hchange, step, if_neg hsame, if_pos hcollector, hpush, hprevious, ← hlength]
    rfl
  · refine ⟨hchange ▸ hnext, rfl, ?_, ?_⟩
    · rw [List.headD_cons, if_pos hcollector, hprevious, base_cons, if_pos hcollector]
    · exact map_activation_change time _ hs.activations

/-- **One sample reports the difference between two effective stacks.** -/
theorem exists_step (node : Nat) (time : α) (h : arena.WellPlaced)
    (hcollector : ∀ c, collector = some c → c ≠ 0 ∧ alike c = true)
    (hroom : arena.maxDepth + 2 ≤ room)
    (hs : Follows arena collector room state history frames)
    (hhistory : ∀ other ∈ history, other < arena.size) (hn : node < arena.size) :
    ∃ next, step arena collector alike (node, time) state =
        .ok (next, (sampled arena collector history (node, time) frames).1) ∧
      Follows arena collector room next (node :: history)
        (sampled arena collector history (node, time) frames).2 := by
  have hroot : collector ≠ some 0 := fun hzero => (hcollector 0 hzero).1 rfl
  have hb : base collector history < arena.size := base_lt hhistory h.pos
  by_cases hsame : node = history.headD 0
  · rw [sampled, if_pos hsame]
    by_cases halike : alike node = true
    · refine ⟨state, ?_, hsame ▸ hs.again h hroot⟩
      rw [step, if_pos (by rw [hs.previous, halike, decide_eq_true hsame]; rfl)]
    · have hcall : collector ≠ some node := fun hc => halike (hcollector node hc).2
      have hold : effectiveOf arena collector history = callsOf arena node := by
        rw [effectiveOf_eq h hroot, ← hsame, if_neg hcall, List.append_nil, hsame,
          base_of_ne (hsame ▸ hcall)]
      have hother : ¬ (node = state.previous && alike node) = true := by simp [halike]
      have hstep := exists_step_call node time h hroot hroom hs hb hn hcall hother
      rwa [hold, change_self] at hstep
  · rw [sampled, if_neg hsame]
    by_cases hcall : collector = some node
    · exact exists_step_collection node time h hroot hroom hs hb hcall hsame
    · rw [effective_eq h, if_neg hcall]
      exact exists_step_call node time h hroot hroom hs hb hn hcall
        (by rw [hs.previous, decide_eq_false hsame]; exact Bool.false_ne_true)

/-- At the end all frames close. -/
theorem exists_finish (time : α) (h : arena.WellPlaced) (hroot : collector ≠ some 0)
    (hs : Follows arena collector room state history frames)
    (hhistory : ∀ other ∈ history, other < arena.size) :
    ∃ last, finish arena collector time state =
      .ok (last, (closeMany time (effectiveOf arena collector history).length frames).1) := by
  have hb : base collector history < arena.size := base_lt hhistory h.pos
  obtain ⟨rested, hresume, hlays, hprevious, -⟩ := exists_resume time h hroot hs hb
  have hopen := hs.activations_closeMany time h hroot
  obtain ⟨last, hclose, -⟩ := closeAll_path time h hlays hb hopen 0
  refine ⟨last, ?_⟩
  rw [List.drop_zero, path, List.reverse_reverse] at hclose
  rw [finish, hresume, length_effectiveOf h hroot, closeMany_add]
  simp only [bind, Except.bind, hprevious, hclose, pure, Except.pure, Nat.sub_zero]

/-! ## 3. All samples -/

/-- From where a replay stands it reports what the stacks say. -/
theorem exists_runFrom (stop : α) (h : arena.WellPlaced)
    (hcollector : ∀ c, collector = some c → c ≠ 0 ∧ alike c = true)
    (hroom : arena.maxDepth + 2 ≤ room) : ∀ (stream : List (Nat × α)) {state : ReplayState α}
    {history : List Nat} {frames : List (OpenFrame α)},
    Follows arena collector room state history frames →
    (∀ other ∈ history, other < arena.size) →
    (∀ sample ∈ stream, sample.1 < arena.size) →
    ∃ scratch, runFrom arena collector alike stop stream state =
      .ok (scratch, replayed arena collector stop history stream frames)
  | [], state, history, frames, hs, hhistory, _ => by
    have hroot : collector ≠ some 0 := fun hzero => (hcollector 0 hzero).1 rfl
    obtain ⟨last, hlast⟩ := exists_finish stop h hroot hs hhistory
    exact ⟨last.toScratch, by rw [runFrom, hlast]; rfl⟩
  | (node, time) :: rest, state, history, frames, hs, hhistory, hstream => by
    have hn : node < arena.size := hstream _ List.mem_cons_self
    obtain ⟨next, hnext, hfollows⟩ := exists_step node time h hcollector hroom hs hhistory hn
    obtain ⟨scratch, hrest⟩ := exists_runFrom stop h hcollector hroom rest hfollows
      (List.forall_mem_cons.mpr ⟨hn, hhistory⟩)
      fun sample hsample => hstream sample (List.mem_cons_of_mem _ hsample)
    exact ⟨scratch, by rw [runFrom, hnext]; simp only [bind, Except.bind, hrest]; rfl⟩

end Step

/-- **A replay reports what the effective stacks say, whatever the buffers hold, if they have two
levels more than the tree is deep.** -/
theorem exists_run {arena : Arena β α} {collector : Option Nat} {alike : Nat → Bool}
    {stream : List (Nat × α)} {scratch : Scratch α} (stop : α) (h : arena.WellPlaced)
    (hcollector : ∀ c, collector = some c → c ≠ 0 ∧ alike c = true)
    (hstarts : arena.maxDepth + 2 ≤ scratch.starts.size)
    (hinner : arena.maxDepth + 2 ≤ scratch.inner.size)
    (hstream : ∀ sample ∈ stream, sample.1 < arena.size) :
    ∃ left, run arena collector alike stream stop scratch =
      .ok (left, replayed arena collector stop [] stream []) := by
  have hroot : collector ≠ some 0 := fun hzero => (hcollector 0 hzero).1 rfl
  refine exists_runFrom stop h hcollector (Nat.le_refl _) stream ?_ (by simp) hstream
  exact ⟨⟨rfl, hstarts, hinner, trivial⟩, rfl, by simp [hroot], rfl⟩

end Replay
end SampledProfile
