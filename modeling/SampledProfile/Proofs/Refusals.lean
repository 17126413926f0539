/-
# What a profile is refused for

A list of nodes that is no tree is refused for that (`Fault.DeniesTree`), and there are many other
reasons: values of wrong kinds, samples that name no node, numbers of samples and times that do not
fit.  An operation SPARES the tree (`Spares`) if it fails for other reasons only, whatever it is
given.  That holds of everything that is read of a single node and of everything that is done with
samples and times; what is left is what looks at several nodes.
-/
import SampledProfile.Model
import SampledProfile.Numeric.Exact
import SampledProfile.Proofs.Contraction.Walk

namespace SampledProfile

/-- A list of nodes is refused because it is no tree: it is empty, an id is missing or stands twice,
a node names one that is not there, or the walk from the first node does not meet every node
once. -/
def Fault.DeniesTree : Fault → Prop
  | .malformed .noNodes => True
  | .malformed .nodeWithoutId => True
  | .malformed (.duplicateId _) => True
  | .malformed (.unknownId _ referrer) => referrer ≠ "samples"
  | .malformed (.linksUnknown _) => True
  | .malformed .rootWithoutChildren => True
  | .malformed (.reachableTwice _) => True
  | .malformed (.unreachable _) => True
  | _ => False

/-- If there is no result, it is not because there is no tree. -/
def Spares {β : Type} (x : Except Fault β) : Prop :=
  Outcome.Ends (fun fault => ¬ fault.DeniesTree) (fun _ => True) x

namespace Spares

variable {β γ : Type}

theorem ok (b : β) : Spares (.ok b) := trivial

theorem bind {x : Except Fault β} {f : β → Except Fault γ} (h : Spares x)
    (hf : ∀ b, Spares (f b)) : Spares (x >>= f) :=
  Outcome.FailsAs.bind h hf

theorem map {x : Except Fault β} (h : Spares x) (f : β → γ) : Spares (x.map f) :=
  Outcome.FailsAs.map h f

theorem mapM {f : β → Except Fault γ} (hf : ∀ b, Spares (f b)) (entries : List β) :
    Spares (entries.mapM f) :=
  (Outcome.Ends.mapM fun entry _ => hf entry).failsAs

theorem foldlM {f : γ → β → Except Fault γ} (hf : ∀ c b, Spares (f c b)) (entries : List β)
    (start : γ) : Spares (entries.foldlM f start) :=
  Outcome.Ends.foldlM (fun next _ entry _ => hf next entry) trivial

/-! ## 1. Values -/

theorem divide (x y : Rat) : Spares (Scalar.div? x y) := by
  unfold Scalar.div? Scalar.guarded
  split
  · rename_i fault hfault
    by_cases hzero : y = 0
    · rw [show Scalar.quotientFault x y = some .zeroDivision from if_pos hzero] at hfault
      rw [← Option.some.inj hfault]
      exact not_false
    · rw [show Scalar.quotientFault x y = none from if_neg hzero] at hfault
      cases hfault
  · exact ok _

theorem fields (v : Value Rat) : Spares v.fields := by
  cases v with
  | obj fields => exact ok fields
  | _ => exact not_false

theorem items (v : Value Rat) : Spares v.items := by
  cases v with
  | list items => exact ok items
  | str text => exact ok _
  | obj fields => exact ok _
  | _ => exact not_false

theorem key (v : Value Rat) : Spares v.key := by
  cases v with
  | list items => exact not_false
  | obj fields => exact not_false
  | _ => exact ok _

theorem number (v : Value Rat) : Spares v.number := by
  unfold Value.number
  split
  · exact ok _
  · exact not_false

theorem sub (v w : Value Rat) : Spares (v.sub w) := by
  unfold Value.sub
  split
  · exact ok _
  · exact not_false

theorem add (v w : Value Rat) : Spares (v.add w) := by
  unfold Value.add
  split
  · exact ok _
  · exact ok _
  · split
    · exact ok _
    · exact not_false

theorem div (v w : Value Rat) : Spares (v.div w) := by
  unfold Value.div
  split
  · exact divide _ _
  · exact not_false

theorem repetitions {tooLong : Fault} (h : ¬ tooLong.DeniesTree) (length : Nat) (count : Int) :
    Spares (Value.repetitions tooLong length count) := by
  unfold Value.repetitions
  split
  · exact not_false
  split
  · exact ok 0
  split
  · exact h
  split
  · exact not_false
  · exact ok _

theorem repeatText (text : String) (count : Int) :
    Spares (Value.repeatText text count : Except Fault (Value Rat)) :=
  bind (repetitions (show ¬ Fault.overflow.DeniesTree from not_false) _ _) fun _ => ok _

theorem repeatList (items : List (Value Rat)) (count : Int) :
    Spares (Value.repeatList items count) :=
  bind (repetitions (show ¬ Fault.outOfMemory.DeniesTree from not_false) _ _) fun _ => ok _

theorem mul (v w : Value Rat) : Spares (v.mul w) := by
  unfold Value.mul
  split
  · split
    · exact repeatText _ _
    · exact not_false
  · split
    · exact repeatList _ _
    · exact not_false
  · split
    · exact repeatText _ _
    · exact not_false
  · split
    · exact repeatList _ _
    · exact not_false
  · split
    · exact ok _
    · exact not_false

theorem require (node : Fields Rat) (name : String) : Spares (node.require name) := by
  unfold Fields.require
  split
  · exact ok _
  · exact not_false

/-! ## 2. Single nodes -/

theorem fromOne (position : Value Rat) : Spares (Frame.fromOne position) :=
  map (sub position (.int 1)) Value.num

theorem frame (node : Fields Rat) : Spares (Frame.ofFields node) := by
  unfold Frame.ofFields
  dsimp only
  split
  · exact (fields _).bind fun _ => ok _
  · exact (fromOne _).bind fun _ => (fromOne _).bind fun _ => ok _

/-- **What a node reports spares the tree.** -/
theorem call (time : Rat) (node : Fields Rat) : Spares (Call.ofFields time node) := by
  have hrecord : Spares (CallRecord.ofFields node) :=
    (frame node).bind fun _ => (require node "id").bind fun _ => ok _
  exact hrecord.bind fun record => (mul _ _).bind fun time => (number time).bind fun _ => ok _

theorem addressOf (node : Fields Rat) : Spares (Frame.addressOf node) := by
  unfold Frame.addressOf
  dsimp only
  split
  · exact (fields _).map _
  · exact ok _

/-- **Whether a node is dropped spares the tree.** -/
theorem isElided (keepNatives : Bool) (node : Fields Rat) :
    Spares (Contraction.isElided keepNatives node) := by
  unfold Contraction.isElided
  split
  · exact ok false
  · refine (addressOf node).bind fun address => ?_
    split
    · split
      · exact ok _
      · exact not_false
    · exact ok false

/-! ## 3. Hits and samples -/

theorem totalHits (table : NodeTable Rat) : Spares table.totalHits :=
  foldlM (fun _ _ => (number _).bind fun _ => ok _) _ _

theorem sampleTime (total : Rat) (start finish : Value Rat) :
    Spares (Contraction.sampleTime total start finish) := by
  unfold Contraction.sampleTime
  split
  · exact ok 0
  · exact (sub _ _).bind fun _ => divide _ _

theorem find (table : NodeTable Rat) (sample : Value Rat) :
    Spares (table.find sample "samples") := by
  refine (key sample).bind fun _ => ?_
  split
  · exact ok _
  · exact fun h => h rfl

/-- **Where hits cannot be provided, the tree is spared.** -/
theorem countHits : ∀ (samples : List (Value Rat)) (table : NodeTable Rat),
    Spares (table.countHits samples).2
  | [], _ => ok ()
  | sample :: rest, table => by
    have hfind := find table sample
    unfold NodeTable.countHits
    cases h : table.find sample "samples" with
    | ok position => exact countHits rest _
    | error fault =>
      rw [h] at hfind
      exact hfind

theorem fillHits (table : NodeTable Rat) (samples : Value Rat) :
    Spares (table.fillHits samples).2 := by
  unfold NodeTable.fillHits
  split
  · exact not_false
  · split
    · exact ok ()
    split
    · exact not_false
    split
    · exact countHits _ _
    · rename_i fault hfault
      have hitems := items samples
      rw [hfault] at hitems
      exact hitems

/-- **Where samples cannot be redirected, the tree is spared.** -/
theorem redirectSamples (trail : Trail Rat) (samples : Value Rat) :
    Spares (Contraction.redirectSamples trail samples) := by
  unfold Contraction.redirectSamples
  split
  · exact ok none
  · refine (items samples).bind fun given => (mapM (fun sample => ?_) given).bind fun _ => ok _
    refine (key sample).bind fun _ => ?_
    split
    · exact ok _
    · exact fun h => h rfl

/-! ## 4. Times -/

theorem spread (count : Nat) (start finish : Value Rat) :
    Spares (Timeline.spread count start finish) := by
  have hinterval : Spares (Timeline.interval count start finish) := by
    unfold Timeline.interval
    split
    · exact ok 0
    · exact (sub _ _).bind fun _ => divide _ _
  refine hinterval.bind fun step => (mapM (fun position => ?_) _).bind fun _ => ok _
  exact bind (ok _) fun offset => (add _ _).bind fun time => number time

theorem ofRecorded (count : Nat) (times : List (Value Rat)) :
    Spares (Timeline.ofRecorded count times) := by
  have hcounts : Spares (Timeline.checkCounts count times.length) := by
    unfold Timeline.checkCounts
    split
    · exact ok ()
    · exact not_false
  have hstep : ∀ (first last : Rat) (size : Nat), Spares (Timeline.averageStep first last size) := by
    intro first last size
    unfold Timeline.averageStep
    split
    · exact bind (ok _) fun _ => divide _ _
    · exact ok 0
  refine hcounts.bind fun _ => (mapM (fun time => div _ _) times).bind fun read => ?_
  dsimp only
  split
  · refine bind (bind (hstep _ _ _) fun _ => bind (ok _) fun _ => ok _) fun _ => ok _
  · exact bind (ok read) fun _ => ok _

/-- **Where samples cannot be given times, the tree is spared.** -/
theorem ofSamples (count : Nat) (times : Option (List (Value Rat))) (start finish : Value Rat) :
    Spares (Timeline.ofSamples count times start finish) := by
  refine map ?_ Timeline.marked
  split
  · exact spread _ _ _
  · exact spread _ _ _
  · exact ofRecorded _ _

end Spares
end SampledProfile
