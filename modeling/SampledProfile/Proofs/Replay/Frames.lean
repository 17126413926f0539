/-
# Frames in buffers

Said without buffers, the open frames of a replay are a list, the innermost first, and a frame knows
what runs in it, when it opened, and how long the frames directly on it were open so far
(`OpenFrame`).  To close a frame takes it from the list and charges the next one with its duration
(`closeMany`); to open one puts it there (`openMany`).

A `Stack` is such a list laid out in two buffers of which it uses the levels from one on
(`Stack.Lays`).  Closing and opening keep it so as long as there is a level for every frame, and
report what the list says (`closeAll_eq`, `openAll_eq`): a slot that is used again is written
before it is read.
-/
import SampledProfile.Proofs.Outcome
import SampledProfile.Replay

namespace SampledProfile

/-! ## 1. Open frames -/

/-- What runs in a frame: a node of the tree, or a garbage collection on top of one. -/
inductive Activation where
  | call (node : Nat)
  | collection (node : Nat)
  deriving DecidableEq

/-- The node that is reported. -/
def Activation.node : Activation → Nat
  | call node => node
  | collection node => node

/-- An open frame. -/
structure OpenFrame (α : Type) where
  activation : Activation
  start : α
  /-- How long the frames were open that lay directly on it. -/
  inner : α

section Frames

variable {α : Type} [Scalar α]

/-- The innermost frame has had a frame on it for some time. -/
def charge (duration : α) : List (OpenFrame α) → List (OpenFrame α)
  | [] => []
  | frame :: below => { frame with inner := frame.inner + duration } :: below

/-- Closes so many frames at a time: what is reported, and the frames that stay open. -/
def closeMany (time : α) : Nat → List (OpenFrame α) → List (Event α) × List (OpenFrame α)
  | 0, frames => ([], frames)
  | _ + 1, [] => ([], [])
  | count + 1, frame :: below =>
    let duration := time - frame.start
    let (events, frames) := closeMany time count (charge duration below)
    (.closed below.length frame.activation.node frame.start duration (duration - frame.inner) ::
      events, frames)

/-- Opens frames at a time, the outermost first: what is reported, and the frames that are open. -/
def openMany (time : α) : List Activation → List (OpenFrame α) → List (Event α) × List (OpenFrame α)
  | [], frames => ([], frames)
  | activation :: rest, frames =>
    let (events, all) := openMany time rest (⟨activation, time, 0⟩ :: frames)
    (.opened frames.length activation.node time :: events, all)

@[simp] theorem map_activation_charge (duration : α) (frames : List (OpenFrame α)) :
    (charge duration frames).map OpenFrame.activation = frames.map OpenFrame.activation := by
  cases frames <;> rfl

@[simp] theorem length_charge (duration : α) (frames : List (OpenFrame α)) :
    (charge duration frames).length = frames.length := by
  cases frames <;> rfl

theorem map_activation_closeMany (time : α) : ∀ (count : Nat) (frames : List (OpenFrame α)),
    (closeMany time count frames).2.map OpenFrame.activation =
      (frames.map OpenFrame.activation).drop count
  | 0, _ => rfl
  | _ + 1, [] => rfl
  | count + 1, frame :: below => by
    simp [closeMany, map_activation_closeMany time count]

theorem map_activation_openMany (time : α) : ∀ (activations : List Activation)
    (frames : List (OpenFrame α)),
    (openMany time activations frames).2.map OpenFrame.activation =
      activations.reverse ++ frames.map OpenFrame.activation
  | [], _ => rfl
  | activation :: rest, frames => by
    simp [openMany, map_activation_openMany time rest]

theorem length_closeMany (time : α) (count : Nat) (frames : List (OpenFrame α)) :
    (closeMany time count frames).2.length = frames.length - count := by
  simpa using congrArg List.length (map_activation_closeMany time count frames)

/-! ## 2. Frames laid out in buffers -/

@[simp] theorem Scratch.size_starts_blank (size : Nat) :
    (Scratch.blank size : Scratch α).starts.size = size := Array.size_replicate

@[simp] theorem Scratch.size_inner_blank (size : Nat) :
    (Scratch.blank size : Scratch α).inner.size = size := Array.size_replicate

/-- The buffers have what is known of some frames, the outermost at level one. -/
def Scratch.Holds (scratch : Scratch α) : List (OpenFrame α) → Prop
  | [] => True
  | frame :: below => scratch.starts[below.length + 1]? = some frame.start ∧
      scratch.inner[below.length + 1]? = some frame.inner ∧ scratch.Holds below

omit [Scalar α] in
/-- Levels that are not used do not matter. -/
theorem Scratch.Holds.congr {scratch other : Scratch α} : ∀ {frames : List (OpenFrame α)},
    scratch.Holds frames →
    (∀ level, 0 < level → level ≤ frames.length →
      other.starts[level]? = scratch.starts[level]? ∧
        other.inner[level]? = scratch.inner[level]?) → other.Holds frames
  | [], _, _ => trivial
  | frame :: below, ⟨hstart, hinner, hbelow⟩, h => by
    obtain ⟨hs, hi⟩ := h (below.length + 1) (Nat.succ_pos _) (Nat.le_refl _)
    refine ⟨hs.trans hstart, hi.trans hinner, hbelow.congr fun level hpos hle => ?_⟩
    exact h level hpos (Nat.le_succ_of_le hle)

/-- The stack has the frames laid out in buffers of `room` levels at least. -/
structure Stack.Lays (room : Nat) (stack : Stack α) (frames : List (OpenFrame α)) : Prop where
  top : stack.top = frames.length
  starts : room ≤ stack.starts.size
  inner : room ≤ stack.inner.size
  holds : stack.toScratch.Holds frames

namespace Stack.Lays

variable {room : Nat} {stack : Stack α} {frames : List (OpenFrame α)}

/-- A frame can be opened if there is a level for it. -/
theorem exists_push (h : stack.Lays room frames) (hroom : frames.length + 1 < room)
    (activation : Activation) (time : α) :
    ∃ next, stack.push time = .ok next ∧ next.Lays room (⟨activation, time, 0⟩ :: frames) := by
  have hstarts := h.starts
  have hinner := h.inner
  have htop := h.top
  have hlevels : (decide (stack.top + 1 < stack.starts.size) &&
      decide (stack.top + 1 < stack.inner.size)) = true := by
    simp only [Bool.and_eq_true, decide_eq_true_eq]
    omega
  refine ⟨_, by rw [push, if_pos hlevels], ⟨by simp [htop], by simpa, by simpa, ?_, ?_, ?_⟩⟩
  · rw [htop]
    exact Array.getElem?_setIfInBounds_self_of_lt (by omega)
  · rw [htop]
    exact Array.getElem?_setIfInBounds_self_of_lt (by omega)
  · refine h.holds.congr fun level _ hle => ⟨?_, ?_⟩
    · exact Array.getElem?_setIfInBounds_ne (by omega)
    · exact Array.getElem?_setIfInBounds_ne (by omega)

/-- The innermost frame can be closed, and what is reported is what is known of it. -/
theorem exists_close {frame : OpenFrame α} {below : List (OpenFrame α)}
    (h : stack.Lays room (frame :: below)) (depth node : Nat) (time : α) :
    ∃ next, stack.close depth node time =
        .ok (next, .closed depth node frame.start (time - frame.start)
          (time - frame.start - frame.inner)) ∧
      next.Lays room (charge (time - frame.start) below) := by
  obtain ⟨⟨starts, inner⟩, top⟩ := stack
  obtain ⟨htop, hstarts, hinner, hstart, hnested, hbelow⟩ := h
  simp only [List.length_cons] at htop
  subst htop
  obtain ⟨around, haround⟩ : ∃ around, inner[below.length]? = some around := by
    have hlt := (Array.getElem?_eq_some_iff.mp hnested).1
    exact ⟨_, Array.getElem?_eq_getElem (Nat.lt_of_succ_lt hlt)⟩
  refine ⟨⟨⟨starts, inner.setIfInBounds below.length (around + (time - frame.start))⟩,
    below.length⟩, ?_, by simp, hstarts, by simpa using hinner, ?_⟩
  · simp only [close, pop, hstart, hnested, haround]
    rfl
  · cases below with
    | nil => trivial
    | cons next rest =>
      obtain ⟨hnextStart, hnextInner, hrest⟩ := hbelow
      obtain rfl : around = next.inner := by
        rw [List.length_cons, hnextInner] at haround
        exact (Option.some.inj haround).symm
      refine ⟨hnextStart, ?_, hrest.congr fun level _ hle => ⟨rfl, ?_⟩⟩
      · exact Array.getElem?_setIfInBounds_self_of_lt (Array.getElem?_eq_some_iff.mp haround).1
      · exact Array.getElem?_setIfInBounds_ne (by rw [List.length_cons]; omega)

end Stack.Lays

/-! ## 3. Closing and opening the frames of nodes -/

namespace Replay

open Outcome

variable {β : Type} (arena : Arena β α) (time : α) {room : Nat}

/-- The innermost frames, which are those of some nodes at their depths, can be closed. -/
theorem closeAll_eq : ∀ (nodes : List Nat) {stack : Stack α} {frames : List (OpenFrame α)},
    stack.Lays room frames →
    nodes.map Activation.call <+: frames.map OpenFrame.activation →
    (∀ index node, nodes[index]? = some node → arena.depth node = frames.length - index) →
    ∃ next, closeAll arena time nodes stack = .ok (next, (closeMany time nodes.length frames).1) ∧
      next.Lays room (closeMany time nodes.length frames).2
  | [], stack, frames, h, _, _ => ⟨stack, rfl, h⟩
  | node :: rest, stack, [], _, hnodes, _ => by simp at hnodes
  | node :: rest, stack, frame :: below, h, hnodes, hdepths => by
    simp only [List.map_cons, List.cons_prefix_cons] at hnodes
    obtain ⟨hactivation, hrest⟩ := hnodes
    obtain ⟨next, hclose, hnext⟩ := h.exists_close (arena.depth node - 1) node time
    have hdepth : arena.depth node - 1 = below.length := by
      have := hdepths 0 node rfl
      simp only [List.length_cons] at this
      omega
    obtain ⟨last, hlast, hlays⟩ := closeAll_eq rest hnext
      (by rwa [map_activation_charge]) fun index other hother => by
        rw [length_charge, hdepths (index + 1) other hother, List.length_cons]
        omega
    rw [hdepth] at hclose
    refine ⟨last, ?_, hlays⟩
    simp only [closeAll, hdepth, hclose, bind, Except.bind, hlast, closeMany, List.length_cons,
      ← hactivation, Activation.node]
    rfl

/-- Frames of nodes can be opened at the depths of the nodes, if there are levels for them. -/
theorem openAll_eq : ∀ (nodes : List Nat) {stack : Stack α} {frames : List (OpenFrame α)},
    stack.Lays room frames → frames.length + nodes.length < room →
    (∀ index node, nodes[index]? = some node → arena.depth node = frames.length + index + 1) →
    ∃ next, openAll arena time nodes stack =
        .ok (next, (openMany time (nodes.map Activation.call) frames).1) ∧
      next.Lays room (openMany time (nodes.map Activation.call) frames).2
  | [], stack, frames, h, _, _ => ⟨stack, rfl, h⟩
  | node :: rest, stack, frames, h, hroom, hdepths => by
    rw [List.length_cons] at hroom
    obtain ⟨next, hpush, hnext⟩ := h.exists_push (by omega) (.call node) time
    have hdepth : arena.depth node - 1 = frames.length := by
      have := hdepths 0 node rfl
      omega
    obtain ⟨last, hlast, hlays⟩ := openAll_eq rest hnext
      (by rw [List.length_cons]; omega) fun index other hother => by
        rw [List.length_cons, hdepths (index + 1) other hother]
        omega
    refine ⟨last, ?_, hlays⟩
    simp only [openAll, hpush, bind, Except.bind, hlast, List.map_cons, openMany, hdepth,
      Activation.node]
    rfl

end Replay
end Frames
end SampledProfile
