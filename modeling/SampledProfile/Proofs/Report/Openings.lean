/-
# Frames open in turn

`opensBefore` compares frames by when they opened and then by depth.  It is an order
(`opensBefore_trans`, `not_opensBefore_of_opensBefore`), and it sees of a frame only how it opened
(`Opening.InTurn`).

If every sample is later than the one before it, then a replay opens its frames in this order
(`inTurn_replayed`): at one sample every frame opens on the one before, and those of the next sample
open later.  With one sample nothing closes before the end, and then the innermost frame first
(`descending_replayed`).
-/
import SampledProfile.Proofs.Report.Forest
import SampledProfile.Proofs.Samples.Stability

namespace SampledProfile

/-! ## 1. The order -/

namespace Magnitude

variable {a b c : Magnitude}

theorem isDefined_of_lt (h : a.lt b = true) : a.isDefined = true ∧ b.isDefined = true := by
  rcases a with _ | _ | _ <;> rcases b with _ | _ | _ <;> simp_all [lt, isDefined]

theorem rank_lt_rank (h : a.lt b = true) : a.rank < b.rank := by
  obtain ⟨ha, hb⟩ := isDefined_of_lt h
  exact of_decide_eq_true ((lt_eq_decide_rank ha hb).symm.trans h)

theorem lt_trans (hab : a.lt b = true) (hbc : b.lt c = true) : a.lt c = true := by
  rw [lt_eq_decide_rank (isDefined_of_lt hab).1 (isDefined_of_lt hbc).2]
  exact decide_eq_true ((rank_lt_rank hab).trans (rank_lt_rank hbc))

theorem not_lt_self (a : Magnitude) : ¬ a.lt a = true := fun h => (rank_lt_rank h).false

end Magnitude

namespace Report

variable {α : Type} [Scalar α]

/-- One frame opened before another: at an earlier time, or at the same time and less deep. -/
def Opening.InTurn (first second : Opening α) : Prop :=
  Scalar.lt first.time second.time = true ∨
    Scalar.exact first.time = Scalar.exact second.time ∧ first.depth < second.depth

theorem opensBefore_iff {first second : FrameRow α} :
    opensBefore first second = true ↔ first.opening.InTurn second.opening := by
  unfold opensBefore Opening.InTurn
  split
  · rename_i hsame
    have hnot : ¬ Scalar.lt first.start second.start = true := by
      rw [Scalar.lt, hsame]
      exact Magnitude.not_lt_self _
    simp [FrameRow.opening, hsame, hnot]
  · rename_i hother
    simp [FrameRow.opening, hother]

theorem Opening.InTurn.trans {first second third : Opening α} (h : first.InTurn second)
    (h' : second.InTurn third) : first.InTurn third := by
  rcases h with hlt | ⟨hsame, hdepth⟩ <;> rcases h' with hlt' | ⟨hsame', hdepth'⟩
  · exact .inl (Magnitude.lt_trans hlt hlt')
  · exact .inl (by rwa [Scalar.lt, ← hsame'])
  · exact .inl (by rwa [Scalar.lt, hsame])
  · exact .inr ⟨hsame.trans hsame', hdepth.trans hdepth'⟩

theorem Opening.not_inTurn_self (opening : Opening α) : ¬ opening.InTurn opening := by
  rintro (hlt | ⟨-, hdepth⟩)
  · exact Magnitude.not_lt_self _ hlt
  · exact Nat.lt_irrefl _ hdepth

theorem opensBefore_trans (a b c : FrameRow α) (hab : opensBefore a b = true)
    (hbc : opensBefore b c = true) : opensBefore a c = true :=
  opensBefore_iff.mpr ((opensBefore_iff.mp hab).trans (opensBefore_iff.mp hbc))

theorem not_opensBefore_of_opensBefore {a b : FrameRow α} (h : opensBefore a b = true) :
    ¬ opensBefore b a = true := fun h' =>
  Opening.not_inTurn_self _ (opensBefore_iff.mp (opensBefore_trans a b a h h'))

/-! ## 2. What opens -/

theorem openings_closeMany (time : α) : ∀ (count : Nat) (frames : List (OpenFrame α)),
    (closeMany time count frames).1.filterMap opening? = []
  | 0, _ => rfl
  | _ + 1, [] => rfl
  | count + 1, frame :: below => openings_closeMany time count (charge (time - frame.start) below)

/-- Frames open one on the other, all at one time. -/
theorem inTurn_openMany (time : α) : ∀ (activations : List Activation)
    (frames : List (OpenFrame α)),
    ((openMany time activations frames).1.filterMap opening?).Pairwise Opening.InTurn ∧
      ∀ opening ∈ (openMany time activations frames).1.filterMap opening?,
        opening.time = time ∧ frames.length ≤ opening.depth
  | [], _ => ⟨.nil, nofun⟩
  | activation :: rest, frames => by
    obtain ⟨hturn, hrest⟩ := inTurn_openMany time rest (⟨activation, time, 0⟩ :: frames)
    refine ⟨List.pairwise_cons.mpr ⟨fun opening hopening => ?_, hturn⟩,
      List.forall_mem_cons.mpr ⟨⟨rfl, Nat.le_refl _⟩, fun opening hopening => ?_⟩⟩
    · obtain ⟨htime, hdepth⟩ := hrest opening hopening
      exact .inr ⟨by rw [htime], hdepth⟩
    · obtain ⟨htime, hdepth⟩ := hrest opening hopening
      exact ⟨htime, Nat.le_of_succ_le hdepth⟩

section Samples

variable {β : Type} (arena : Arena β α) (collector : Option Nat)

/-- What one sample opens opens in turn, at the time of the sample. -/
theorem inTurn_sampled (history : List Nat) (sample : Nat × α) (frames : List (OpenFrame α)) :
    ((sampled arena collector history sample frames).1.filterMap opening?).Pairwise
        Opening.InTurn ∧
      ∀ opening ∈ (sampled arena collector history sample frames).1.filterMap opening?,
        opening.time = sample.2 := by
  unfold sampled
  split
  · exact ⟨.nil, nofun⟩
  · simp only [change, List.filterMap_append, openings_closeMany, List.nil_append]
    obtain ⟨hturn, hopen⟩ := inTurn_openMany sample.2 _ _
    exact ⟨hturn, fun opening hopening => (hopen opening hopening).1⟩

/-- **If every sample is later than the one before, then all frames open in turn, each at the time
of a sample.** -/
theorem inTurn_replayed (last : α) : ∀ {stream : List (Nat × α)} (history : List Nat)
    (frames : List (OpenFrame α)),
    (stream.map Prod.snd).Pairwise (fun earlier later => Scalar.lt earlier later = true) →
    ((replayed arena collector last history stream frames).filterMap opening?).Pairwise
        Opening.InTurn ∧
      ∀ opening ∈ (replayed arena collector last history stream frames).filterMap opening?,
        opening.time ∈ stream.map Prod.snd
  | [], history, frames, _ => by
    simp [replayed, openings_closeMany]
  | sample :: rest, history, frames, htimes => by
    obtain ⟨hlater, htimes⟩ := List.pairwise_cons.mp htimes
    obtain ⟨hturn, htime⟩ := inTurn_sampled arena collector history sample frames
    obtain ⟨hrest, hothers⟩ := inTurn_replayed last (sample.1 :: history)
      (sampled arena collector history sample frames).2 htimes
    simp only [replayed, List.filterMap_append]
    refine ⟨List.pairwise_append.mpr ⟨hturn, hrest, fun first hfirst second hsecond => ?_⟩,
      List.forall_mem_append.mpr ⟨fun opening hopening => ?_, fun opening hopening => ?_⟩⟩
    · exact .inl (htime first hfirst ▸ hlater _ (hothers second hsecond))
    · exact htime opening hopening ▸ List.mem_cons_self
    · exact List.mem_cons_of_mem _ (hothers opening hopening)

/-! ## 3. What closes at the end of one sample -/

theorem closedFrames_openMany (time : α) : ∀ (activations : List Activation)
    (frames : List (OpenFrame α)),
    (openMany time activations frames).1.filterMap closedFrame? = []
  | [], _ => rfl
  | activation :: rest, frames =>
    closedFrames_openMany time rest (⟨activation, time, 0⟩ :: frames)

/-- Frames close one under the other. -/
theorem descending_closeMany (time : α) : ∀ (count : Nat) (frames : List (OpenFrame α)),
    ((closeMany time count frames).1.filterMap closedFrame?).Pairwise
        (fun first second => second.depth < first.depth) ∧
      ∀ frame ∈ (closeMany time count frames).1.filterMap closedFrame?,
        frame.depth < frames.length
  | 0, _ => ⟨.nil, nofun⟩
  | _ + 1, [] => ⟨.nil, nofun⟩
  | count + 1, frame :: below => by
    obtain ⟨hdescending, hrest⟩ :=
      descending_closeMany time count (charge (time - frame.start) below)
    rw [length_charge] at hrest
    exact ⟨List.pairwise_cons.mpr ⟨hrest, hdescending⟩, List.forall_mem_cons.mpr
      ⟨Nat.lt_succ_self _, fun other hother => Nat.lt_succ_of_lt (hrest other hother)⟩⟩

/-- With one sample the frames close one under the other. -/
theorem descending_replayed (last : α) (sample : Nat × α) :
    ((replayed arena collector last [] [sample] []).filterMap closedFrame?).Pairwise
      fun first second => second.depth < first.depth := by
  have hnone : (sampled arena collector [] sample []).1.filterMap closedFrame? = [] := by
    unfold sampled
    split
    · rfl
    · have hclosed : ∀ count, closeMany sample.2 count ([] : List (OpenFrame α)) = ([], []) := by
        rintro (_ | _) <;> rfl
      simp [change, hclosed, closedFrames_openMany]
  simp only [replayed, List.filterMap_append, hnone, List.nil_append]
  exact (descending_closeMany last _ _).1

end Samples
end Report
end SampledProfile
