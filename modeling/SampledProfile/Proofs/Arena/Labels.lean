/-
# Other labels in an arena

The arena of a tree with other labels is that of the tree, with other labels, as long as the shares
stay the same (`Tree.arrange_map`).  Where a node stands, and what is above and below it, is not a
question of labels, so a replay does not see them either (`Replay.runFrom_mapLabels`).
-/
import SampledProfile.Proofs.Arena
import SampledProfile.Replay

namespace SampledProfile

/-! ## 1. Slots -/

variable {β γ α : Type}

/-- The slot with another label. -/
def Slot.mapLabel (f : β → γ) (slot : Slot β α) : Slot γ α :=
  ⟨f slot.label, slot.depth, slot.parent, slot.total⟩

namespace Arena

/-- The arena with other labels. -/
def mapLabels (f : β → γ) (arena : Arena β α) : Arena γ α := arena.map (Slot.mapLabel f)

variable (f : β → γ) (arena : Arena β α)

@[simp] theorem size_mapLabels : (arena.mapLabels f).size = arena.size := Array.size_map

theorem getElem?_mapLabels (position : Nat) :
    (arena.mapLabels f)[position]? = arena[position]?.map (Slot.mapLabel f) := Array.getElem?_map

@[simp] theorem parent?_mapLabels (position : Nat) :
    (arena.mapLabels f).parent? position = arena.parent? position := by
  rw [parent?, parent?, getElem?_mapLabels]
  cases arena[position]? <;> rfl

@[simp] theorem depth_mapLabels (position : Nat) :
    (arena.mapLabels f).depth position = arena.depth position := by
  rw [depth, depth, getElem?_mapLabels]
  cases arena[position]? <;> rfl

@[simp] theorem children_mapLabels (position : Nat) :
    (arena.mapLabels f).children position = arena.children position := by
  simp only [children, size_mapLabels, parent?_mapLabels]

@[simp] theorem maxDepth_mapLabels : (arena.mapLabels f).maxDepth = arena.maxDepth := by
  rw [maxDepth, mapLabels, Array.foldl_map]
  rfl

theorem mapLabels_append (slots : List (Slot β α)) :
    mapLabels f (arena ++ slots) = arena.mapLabels f ++ slots.map (Slot.mapLabel f) := by
  refine Array.ext' ?_
  simp [mapLabels, Array.toList_appendList]

theorem addInto_mapLabels [Add α] (position : Nat) :
    (arena.mapLabels f).addInto position = (arena.addInto position).mapLabels f := by
  unfold addInto
  rw [getElem?_mapLabels]
  cases arena[position]? with
  | none => rfl
  | some slot =>
    obtain ⟨label, depth, parent, total⟩ := slot
    cases parent with
    | none => rfl
    | some parent =>
      refine Array.ext_getElem? fun other => ?_
      simp only [Option.map_some, Slot.mapLabel, Array.getElem?_modify, getElem?_mapLabels]
      split
      · cases arena[other]? <;> rfl
      · rfl

theorem addUp_mapLabels [Add α] : ∀ (bound : Nat) (arena : Arena β α),
    addUp bound (arena.mapLabels f) = (addUp bound arena).mapLabels f
  | 0, _ => rfl
  | bound + 1, arena => by
    rw [addUp, addUp, addInto_mapLabels, addUp_mapLabels bound]

end Arena

/-! ## 2. Laying out -/

namespace Tree

variable {f : β → γ} {share : β → α} {share' : γ → α}

theorem slotsOf_mapAll (h : ∀ label, share' (f label) = share label) (position depth : Nat)
    (trees : List (Tree β)) :
    slotsOf share' position depth (mapAll f trees) =
      (slotsOf share position depth trees).map (Slot.mapLabel f) := by
  induction trees with
  | nil => rfl
  | cons tree rest ih =>
    obtain ⟨label, below⟩ := tree
    rw [mapAll, map, slotsOf, slotsOf, List.map_cons, List.map_cons, List.map_cons]
    exact congrArg₂ List.cons (congrArg (Slot.mk (f label) depth (some position)) (h label)) ih

theorem placeAll_mapAll (h : ∀ label, share' (f label) = share label) (trees : List (Tree β)) :
    ∀ (position depth : Nat) (arena : Arena β α),
      placeAll share' (mapAll f trees) position depth (arena.mapLabels f) =
        (placeAll share trees position depth arena).mapLabels f := by
  induction trees using forest_induction with
  | nil => exact fun _ _ _ => rfl
  | cons label below rest ihb ihr =>
    intro position depth arena
    rw [mapAll, map, placeAll_cons, placeAll_cons, ihr, Arena.size_mapLabels, slotsOf_mapAll h,
      ← Arena.mapLabels_append, ihb]

/-- **The arena of a tree with other labels is its arena with other labels.** -/
theorem arrange_map [Add α] (h : ∀ label, share' (f label) = share label) (tree : Tree β) :
    (tree.map f).arrange share' = (tree.arrange share).mapLabels f := by
  have hplaced : (tree.map f).placed share' = (tree.placed share).mapLabels f := by
    have hroot : rootSlot share' (tree.map f).label = (rootSlot share tree.label).mapLabels f := by
      obtain ⟨label, below⟩ := tree
      simp [map, rootSlot, Arena.mapLabels, Slot.mapLabel, h]
    rw [placed, placed, hroot]
    exact placeAll_mapAll h [tree] 0 0 _
  change Arena.addUp ((tree.map f).placed share').size ((tree.map f).placed share') = _
  rw [hplaced, Arena.size_mapLabels, Arena.addUp_mapLabels]
  rfl

end Tree

/-! ## 3. Replays -/

namespace Arena

variable (f : β → γ) (arena : Arena β α)

theorem above_mapLabels : ∀ steps position : Nat,
    (arena.mapLabels f).above steps position = arena.above steps position
  | 0, _ => rfl
  | steps + 1, position => by
    simp only [above, parent?_mapLabels, above_mapLabels steps]

theorem upwards_mapLabels : ∀ count position : Nat,
    (arena.mapLabels f).upwards count position = arena.upwards count position
  | 0, _ => rfl
  | count + 1, position => by
    simp only [upwards, parent?_mapLabels, upwards_mapLabels count]

theorem meet_mapLabels : ∀ fuel old new : Nat,
    (arena.mapLabels f).meet fuel old new = arena.meet fuel old new
  | 0, _, _ => rfl
  | fuel + 1, old, new => by
    simp only [meet, parent?_mapLabels, meet_mapLabels fuel]

theorem move_mapLabels (old new : Nat) : (arena.mapLabels f).move old new = arena.move old new := by
  simp only [move, depth_mapLabels, above_mapLabels, upwards_mapLabels, meet_mapLabels]

end Arena

namespace Replay

open Arena

variable [Scalar α] (f : β → γ) (arena : Arena β α)

theorem closeAll_mapLabels (time : α) : ∀ (nodes : List Nat) (stack : Stack α),
    closeAll (arena.mapLabels f) time nodes stack = closeAll arena time nodes stack
  | [], _ => rfl
  | node :: rest, stack => by
    simp only [closeAll, depth_mapLabels, closeAll_mapLabels time rest]

theorem openAll_mapLabels (time : α) : ∀ (nodes : List Nat) (stack : Stack α),
    openAll (arena.mapLabels f) time nodes stack = openAll arena time nodes stack
  | [], _ => rfl
  | node :: rest, stack => by
    simp only [openAll, depth_mapLabels, openAll_mapLabels time rest]

theorem resume_mapLabels (collector : Option Nat) (time : α) (state : ReplayState α) :
    resume (arena.mapLabels f) collector time state = resume arena collector time state := by
  simp only [resume, depth_mapLabels]

theorem step_mapLabels (collector : Option Nat) (alike : Nat → Bool) (sample : Nat × α)
    (state : ReplayState α) :
    step (arena.mapLabels f) collector alike sample state =
      step arena collector alike sample state := by
  simp only [step, depth_mapLabels, resume_mapLabels, move_mapLabels, closeAll_mapLabels,
    openAll_mapLabels]

theorem finish_mapLabels (collector : Option Nat) (time : α) (state : ReplayState α) :
    finish (arena.mapLabels f) collector time state = finish arena collector time state := by
  simp only [finish, depth_mapLabels, resume_mapLabels, upwards_mapLabels, closeAll_mapLabels]

/-- **A replay does not depend on labels.** -/
theorem runFrom_mapLabels (collector : Option Nat) (alike : Nat → Bool) (stop : α) :
    ∀ (stream : List (Nat × α)) (state : ReplayState α),
      runFrom (arena.mapLabels f) collector alike stop stream state =
        runFrom arena collector alike stop stream state
  | [], _ => by
    simp only [runFrom, finish_mapLabels]
  | sample :: rest, _ => by
    simp only [runFrom, step_mapLabels, runFrom_mapLabels collector alike stop rest]

end Replay
end SampledProfile
