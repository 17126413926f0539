/-
# What a recording is refused for

A recording is within a mass if its fields are of the right kinds and its numbers so small that no sum
the stages make of them is above the mass (`Recording.Within`).  Then it has a model, or it is
malformed, or the mass is beyond the largest double (`Model.refuses_ofRecording`).

Three things may fail behind the tree.  Samples are sorted by numbers, which can always be compared;
times are shared out or averaged (`Timeline.refuses_ofSamples`), by a number of samples that is not
zero; and the repair looks up ids that the tree has.
-/
import SampledProfile.Proofs.Contraction.Mass
import SampledProfile.Proofs.Places
import SampledProfile.Proofs.Samples.Comparisons
import SampledProfile.Proofs.Samples.Permutation

namespace SampledProfile

open Outcome

variable {mass : Nat}

/-! ## 1. Units -/

/-- A product with the number of smaller units in a larger one. -/
theorem ends_thousandfold {x : Number} (hx : x.size ≤ mass) (hunits : 1000 ≤ mass) :
    Ends (Fault.Refuses mass) (fun scaled => ∃ y, scaled = .num y ∧ y.size ≤ x.size * 1000)
      ((Value.num x).mul (.int 1000)) :=
  (Number.ends_mul (y := .int 1000) hx hunits).map fun y hy =>
    ⟨y, rfl, hy ▸ Number.size_mul_le x (.int 1000)⟩

/-- The number of larger units is a double. -/
theorem ends_thousandth {x : Number} (hx : x.size ≤ mass) (hunits : 1000 ≤ mass) :
    Ends (Fault.Refuses mass) (fun time => time.size = 0) ((Value.num x).div (.int 1000)) := by
  have hunit : (Scalar.ofInt 1000 : Number).size ≤ mass := hunits
  refine (Number.ends_div hx hunit (Number.isZero_ofInt (by decide))).mono ?_
  rintro _ rfl
  exact Number.size_div _ _

/-! ## 2. Times -/

namespace Timeline

variable {start finish : Number} {count : Nat}

/-- Samples that are spread evenly are a double apart. -/
theorem ends_interval (hspan : start.size + finish.size ≤ mass) (hcount : count ≤ mass) :
    Ends (Fault.Refuses mass) (fun step => step.size = 0)
      (interval count (.num start) (.num finish)) := by
  unfold interval
  split
  · exact rfl
  · rename_i hne
    exact Number.ends_share (by omega) (by simpa using hcount) (Number.isZero_ofInt (by omega))

theorem refuses_spreadTime {step : Number} {position : Nat} (hstart : start.size ≤ mass)
    (hstep : step.size = 0) (hposition : position ≤ mass) :
    FailsAs (Fault.Refuses mass) (spreadTime (.num start) step position) := by
  have hmul : Ends (Fault.Refuses mass) (· = Scalar.ofInt position * step)
      (Scalar.mul? (Scalar.ofInt position) step) :=
    Number.ends_mul (by simpa using hposition) (by omega)
  refine hmul.bind fun offset hoffset => ?_
  have hsize := Number.size_mul_le (Scalar.ofInt position) step
  rw [← hoffset, hstep, Nat.mul_zero] at hsize
  have hadd : Ends (Fault.Refuses mass) (fun time => ∃ x, time = .num x)
      ((Value.num start).add (.num offset)) :=
    (Number.ends_add hstart (by omega)).map fun x _ => ⟨x, rfl⟩
  refine hadd.bind fun time htime => ?_
  obtain ⟨x, rfl⟩ := htime
  exact trivial

/-- A span that is shared out gives times. -/
theorem refuses_spread (hspan : start.size + finish.size ≤ mass) (hcount : count ≤ mass) :
    FailsAs (Fault.Refuses mass) (spread count (.num start) (.num finish)) := by
  refine (ends_interval hspan hcount).bind fun step hstep => ?_
  have hall : ∀ position ∈ List.range (count + 1),
      FailsAs (Fault.Refuses mass) (spreadTime (.num start) step position) := by
    intro position hposition
    rw [List.mem_range] at hposition
    exact refuses_spreadTime (by omega) hstep (by omega)
  exact FailsAs.bind (Ends.mapM hall).failsAs fun _ => .ok _ _

/-- Times that are doubles are a double apart on average. -/
theorem ends_averageStep {first last : Number} (hfirst : first.size = 0) (hlast : last.size = 0)
    (hcount : count ≤ mass) :
    Ends (Fault.Refuses mass) (fun step => step.size = 0) (averageStep first last count) := by
  unfold averageStep
  split
  · have hparts : (Scalar.ofInt ((count : Int) - 1) : Number).size ≤ mass := by
      rw [Number.size_ofInt]
      omega
    have hne : (count : Int) - 1 ≠ 0 := by omega
    exact Number.ends_share (by omega) hparts (Number.isZero_ofInt hne)
  · exact rfl

theorem refuses_extrapolate {first : Number} {times : List Number} (hfirst : first.size = 0)
    (htimes : ∀ time ∈ times, time.size = 0) (hcount : times.length ≤ mass) :
    FailsAs (Fault.Refuses mass) (extrapolate first times) := by
  have hlast : (times.getLastD first).size = 0 := by
    cases times with
    | nil => exact hfirst
    | cons time rest =>
      rw [List.getLastD_cons]
      exact htimes _ List.getLastD_mem_cons
  refine (ends_averageStep hfirst hlast hcount).bind fun step hstep => ?_
  have hadd : FailsAs (Fault.Refuses mass) (Scalar.add? (times.getLastD first) step) :=
    (Number.ends_add (by omega) (by omega)).failsAs
  exact hadd.bind fun _ => .ok _ _

/-- Recorded times are as many as there are samples, or one more, or they are refused. -/
theorem refuses_ofRecorded {times : List (Value Number)}
    (htimes : ∀ time ∈ times, ∃ x, time = .num x ∧ x.size ≤ mass) (hcount : count ≤ mass)
    (hunits : 1000 ≤ mass) : FailsAs (Fault.Refuses mass) (ofRecorded count times) := by
  have hfits : FailsAs (Fault.Refuses mass) (checkCounts count times.length) := by
    unfold checkCounts
    split
    · exact .ok _ _
    · exact trivial
  have hread : Ends (Fault.Refuses mass) (fun read : List Number => ∀ time ∈ read, time.size = 0)
      (times.mapM (·.div (.int 1000))) := by
    refine Ends.mapM fun time htime => ?_
    obtain ⟨x, rfl, hx⟩ := htimes time htime
    exact ends_thousandth hx hunits
  refine hfits.bind fun _ => hread.bind fun read hsizes => ?_
  have hhead : (read.headD 0).size = 0 := by
    cases read with
    | nil => rfl
    | cons first rest => exact hsizes first List.mem_cons_self
  dsimp only
  split
  · rename_i hlength
    exact (refuses_extrapolate hhead hsizes (hlength ▸ hcount)).bind fun _ => .ok _ _
  · exact trivial

/-- **Where times are within the mass, every sample has one, or they are refused.** -/
theorem refuses_ofSamples {times : Option (List (Value Number))}
    (htimes : ∀ given, times = some given → ∀ time ∈ given, ∃ x, time = .num x ∧ x.size ≤ mass)
    (hspan : start.size + finish.size ≤ mass) (hcount : count ≤ mass) (hunits : 1000 ≤ mass) :
    FailsAs (Fault.Refuses mass) (ofSamples count times (.num start) (.num finish)) := by
  refine FailsAs.map ?_ marked
  split
  · exact refuses_spread hspan hcount
  · exact refuses_spread hspan hcount
  · exact refuses_ofRecorded (htimes _ rfl) hcount hunits

end Timeline

/-! ## 3. Models -/

open Contraction

/-- A recording with fields of the right kinds, and numbers that stay within a mass. -/
structure Recording.Within (mass : Nat) (recording : Recording Number) : Prop where
  nodes : ∀ node ∈ recording.nodes, IsFlatNode node
  samples : ∀ ids, recording.samples = some ids → ∀ id ∈ ids, id.CanName
  times : ∀ times, recording.timestamps = some times →
    ∀ time ∈ times, ∃ x, time = .num x ∧ x.size ≤ mass
  span : ∃ start finish, recording.start = .num start ∧ recording.finish = .num finish ∧
    start.size + finish.size ≤ mass
  /-- Samples may be counted as hits. -/
  hits : hitMass recording.nodes + sampleCount recording.samples ≤ mass
  /-- So many microseconds are a millisecond. -/
  units : 1000 ≤ mass

namespace Model

/-- **A recording within a mass is malformed if it is refused, or the mass is beyond the largest
double.** -/
theorem refuses_ofRecording {recording : Recording Number} (h : recording.Within mass)
    (keepNatives : Bool) : FailsAs (Fault.Refuses mass) (ofRecording recording keepNatives) := by
  obtain ⟨start, finish, hstart, hfinish, hspan⟩ := h.span
  have hcontraction := refuses_ofNodes h.nodes h.samples h.hits hspan keepNatives
  have hresult := hcontraction.and_ok fun contraction hok => hok
  unfold ofRecording
  rw [hstart, hfinish]
  refine hresult.bind fun contraction hbuilt => ?_
  obtain ⟨-, hok⟩ := hbuilt
  obtain ⟨names, hnames⟩ := exists_namesOf_of_ofNodes hok
  dsimp only
  rw [hnames, ok_bind]
  cases hsamples : contraction.samples with
  | none => exact trivial
  | some samples =>
    have hcount : samples.length ≤ mass := by
      have hsame := sampleCount_of_ofNodes hok
      have hhits := h.hits
      rw [hsamples] at hsame
      simp only [sampleCount, Option.getD_some] at hsame hhits
      omega
    have hrepair : ∀ ordered : List (Value Number), ordered.Perm samples →
        FailsAs (Fault.Refuses mass) (repair (contraction.tree.arrange Call.self) names
          (systemNodes (contraction.tree.arrange Call.self)) ordered) := by
      intro ordered hperm
      obtain ⟨repaired, count, hrepaired⟩ := exists_repair hnames
        (systemNodes (contraction.tree.arrange Call.self)) fun id hid =>
          ids_of_ofNodes hok hsamples id (hperm.mem_iff.mp hid)
      exact .of_eq_ok hrepaired trivial
    dsimp only
    split
    · rename_i times htimes
      have hgiven := h.times times htimes
      obtain ⟨ordered, sorted, hsort⟩ := Samples.exists_sort samples fun time htime =>
        (hgiven time htime).imp fun _ => And.left
      obtain ⟨hperm, hsorted⟩ := Samples.perm_of_sort hsort
      have htimed : ∀ given, some sorted = some given →
          ∀ time ∈ given, ∃ x, time = .num x ∧ x.size ≤ mass := by
        rintro given ⟨⟩ time htime
        exact hgiven time (hsorted.mem_iff.mp htime)
      rw [hsort, ok_bind]
      refine (Timeline.refuses_ofSamples htimed hspan (hperm.length_eq ▸ hcount) h.units).bind
        fun line => ?_
      exact (hrepair ordered hperm).bind fun _ => .ok _ _
    · refine (Timeline.refuses_ofSamples (fun _ hnone => by cases hnone) hspan hcount h.units).bind fun line => ?_
      exact (hrepair samples (.refl _)).bind fun _ => .ok _ _

end Model
end SampledProfile
