/-
# The stacks that samples stand for

Every sample of a replay stands for a stack, its EFFECTIVE stack (`effective`).  For a sample of a
node it is the path of the node.  A sample of the garbage collection stands for a collection on top
of the stack of the last sample before it that is none; that is no frame of the collecting node,
even if the node is on the path of some other sample.

`replayed` is the replay said of these stacks alone: at every sample of another node than before,
the frames of the stack before it close that do not belong to the longest common prefix with the new
stack, and the frames of the new stack open that do not; at the end all frames close.
-/
import SampledProfile.Proofs.Replay.Frames
import SampledProfile.Proofs.Replay.Paths

namespace SampledProfile

section Effective

variable {β α : Type} (arena : Arena β α) (collector : Option Nat)

/-- The node of the last sample that is no collection.  A history has the last sample first. -/
def lastCall (history : List Nat) : Option Nat := history.find? fun node => collector ≠ some node

/-- The frames of a node, the outermost first. -/
def callsOf (node : Nat) : List Activation := (arena.path node).map .call

/-- The stack that a sample of a node stands for after a history. -/
def effective (history : List Nat) (node : Nat) : List Activation :=
  if collector = some node then
    (lastCall collector history).elim [] (callsOf arena) ++ [.collection node]
  else callsOf arena node

/-- The stack that the last sample stands for; without samples there is none. -/
def effectiveOf : List Nat → List Activation
  | [] => []
  | node :: history => effective arena collector history node

variable [Scalar α]

/-- From one stack to another: what is reported, and the frames that are open then. -/
def change (time : α) (old new : List Activation) (frames : List (OpenFrame α)) :
    List (Event α) × List (OpenFrame α) :=
  let (closed, kept) := closeMany time (old.length - shared old new) frames
  let (opened, all) := openMany time (new.drop (shared old new)) kept
  (closed ++ opened, all)

/-- One sample after a history. -/
def sampled (history : List Nat) (sample : Nat × α) (frames : List (OpenFrame α)) :
    List (Event α) × List (OpenFrame α) :=
  if sample.1 = history.headD 0 then ([], frames)
  else
    change sample.2 (effectiveOf arena collector history)
      (effective arena collector history sample.1) frames

/-- Samples after a history, and the end. -/
def replayed (last : α) : List Nat → List (Nat × α) → List (OpenFrame α) → List (Event α)
  | history, [], frames =>
    (closeMany last (effectiveOf arena collector history).length frames).1
  | history, sample :: rest, frames =>
    let (events, frames) := sampled arena collector history sample frames
    events ++ replayed last (sample.1 :: history) rest frames

end Effective

section Lemmas

variable {β α : Type} {arena : Arena β α} {collector : Option Nat}

/-! ## What lies below collections -/

/-- The node whose frames are open below a collection, or at all where there is none. -/
def base (collector : Option Nat) (history : List Nat) : Nat := (lastCall collector history).getD 0

theorem base_cons (history : List Nat) (node : Nat) :
    base collector (node :: history) =
      if collector = some node then base collector history else node := by
  unfold base lastCall
  rw [List.find?_cons]
  by_cases h : collector = some node <;> simp [h]

theorem base_of_ne {history : List Nat} (h : collector ≠ some (history.headD 0)) :
    base collector history = history.headD 0 := by
  cases history with
  | nil => rfl
  | cons node history =>
    rw [base_cons]
    exact if_neg h

theorem base_lt {history : List Nat} {size : Nat} (h : ∀ node ∈ history, node < size)
    (hpos : 0 < size) : base collector history < size := by
  unfold base
  cases hlast : lastCall collector history with
  | none => exact hpos
  | some node => exact h node (List.mem_of_find?_eq_some hlast)

theorem effective_eq (h : arena.WellPlaced) (history : List Nat) (node : Nat) :
    effective arena collector history node =
      if collector = some node then
        callsOf arena (base collector history) ++ [.collection node]
      else callsOf arena node := by
  have hbase : (lastCall collector history).elim [] (callsOf arena) =
      callsOf arena (base collector history) := by
    unfold base
    cases lastCall collector history with
    | none => simp [callsOf, h.path_root]
    | some node => rfl
  rw [effective, hbase]

/-- The stack of the last sample has the frames of one node and a collection on top, if that was the
last sample. -/
theorem effectiveOf_eq (h : arena.WellPlaced) (hroot : collector ≠ some 0) (history : List Nat) :
    effectiveOf arena collector history =
      callsOf arena (base collector history) ++
        if collector = some (history.headD 0) then [.collection (history.headD 0)] else [] := by
  cases history with
  | nil => simp [effectiveOf, base, lastCall, callsOf, h.path_root, hroot]
  | cons node history =>
    rw [effectiveOf, effective_eq h, base_cons, List.headD_cons]
    split <;> simp

theorem base_again (history : List Nat) :
    base collector (history.headD 0 :: history) = base collector history := by
  rw [base_cons]
  split
  · rfl
  · rename_i hne
    exact (base_of_ne hne).symm

/-- Another sample of the same node stands for the same stack. -/
theorem effectiveOf_again (h : arena.WellPlaced) (hroot : collector ≠ some 0)
    (history : List Nat) :
    effectiveOf arena collector (history.headD 0 :: history) =
      effectiveOf arena collector history := by
  rw [effectiveOf_eq h hroot, effectiveOf_eq h hroot, base_again, List.headD_cons]

/-- A collection is no frame of a path. -/
theorem shared_collection (node : Nat) : ∀ xs ys : List Nat,
    shared (xs.map Activation.call ++ [.collection node]) (ys.map .call) = shared xs ys
  | [], [] => rfl
  | [], _ :: _ => by simp [shared]
  | _ :: _, [] => rfl
  | x :: xs, y :: ys => by
    simp only [List.map_cons, List.cons_append, shared, Activation.call.injEq,
      shared_collection node xs ys]

theorem shared_callsOf (old new : Nat) :
    shared (callsOf arena old) (callsOf arena new) = shared (arena.path old) (arena.path new) :=
  shared_map (fun _ _ => Activation.call.inj) _ _

end Lemmas

section Closing

variable {α : Type} [Scalar α]

/-- Closing some frames and then some more. -/
theorem closeMany_add (time : α) : ∀ (first second : Nat) (frames : List (OpenFrame α)),
    closeMany time (first + second) frames =
      ((closeMany time first frames).1 ++
          (closeMany time second (closeMany time first frames).2).1,
        (closeMany time second (closeMany time first frames).2).2)
  | 0, second, frames => by simp [closeMany]
  | first + 1, second, [] => by
    rw [Nat.add_right_comm]
    cases second <;> simp [closeMany]
  | first + 1, second, frame :: below => by
    rw [Nat.add_right_comm]
    simp only [closeMany, closeMany_add time first second, List.cons_append]

/-- From a stack to another the open frames are those of the other. -/
theorem map_activation_change (time : α) {old : List Activation} (new : List Activation)
    {frames : List (OpenFrame α)} (h : frames.map OpenFrame.activation = old.reverse) :
    (change time old new frames).2.map OpenFrame.activation = new.reverse := by
  have hkept : (closeMany time (old.length - shared old new) frames).2.map OpenFrame.activation =
      (new.take (shared old new)).reverse := by
    rw [map_activation_closeMany, h, ← (shared_spec old new).1, List.drop_reverse]
    have hle := shared_le_length old new
    rw [Nat.sub_sub_self hle]
  simp only [change, map_activation_openMany, hkept]
  rw [← List.reverse_append, List.take_append_drop]

/-- From a stack to itself nothing is reported. -/
theorem change_self (time : α) (stack : List Activation) (frames : List (OpenFrame α)) :
    change time stack stack frames = ([], frames) := by
  have hall : shared stack stack = stack.length := by simpa using shared_self_append stack []
  simp [change, hall, closeMany, openMany]

end Closing
end SampledProfile
