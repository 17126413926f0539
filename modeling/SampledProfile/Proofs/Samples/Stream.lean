/-
# The stream of samples and its times

Between the recorded samples and those of a model there are two stages more.

* Whether they are spread over the span of the profile or brought from recorded times, there is a
  time for every sample and one more, at which the last one ends
  (`Timeline.length_of_ofSamples`), and recorded times are numbers (`Timeline.numbers_of_ofSamples`);
* repair replaces samples by others of the stream: there are as many as before, and no sample that
  was not there (`Repair.length_run`, `Repair.mem_of_mem_run`).  It fails only where a sample cannot
  be looked up (`Repair.exists_run`).
-/
import SampledProfile.Proofs.Outcome
import SampledProfile.Samples.Repair
import SampledProfile.Samples.Timeline

namespace SampledProfile

open Outcome

variable {α : Type} [Scalar α]

/-! ## 1. Times -/

namespace Timeline

variable {line : Timeline α} {start finish : Value α}

theorem length_of_spread {count : Nat} (h : spread count start finish = .ok line) :
    line.timestamps.length = count + 1 := by
  obtain ⟨step, -, h⟩ := bind_eq_ok.mp h
  obtain ⟨times, htimes, h⟩ := bind_eq_ok.mp h
  cases h
  rw [length_of_mapM htimes, List.length_range]

theorem bounds_of_checkCounts {samples times : Nat} {result : Unit}
    (h : checkCounts samples times = .ok result) : samples ≤ times ∧ times ≤ samples + 1 := by
  unfold checkCounts at h
  split at h
  · rename_i hboth
    simpa using hboth
  · cases h

theorem length_of_ofRecorded {count : Nat} {times : List (Value α)}
    (h : ofRecorded count times = .ok line) : line.timestamps.length = count + 1 := by
  obtain ⟨_, hcounts, h⟩ := bind_eq_ok.mp h
  obtain ⟨read, hread, h⟩ := bind_eq_ok.mp h
  have hlength : read.length = times.length := length_of_mapM hread
  obtain ⟨hleast, hmost⟩ := bounds_of_checkCounts hcounts
  dsimp only at h
  split at h
  · obtain ⟨all, hall, h⟩ := bind_eq_ok.mp h
    cases h
    obtain ⟨step, -, hall⟩ := bind_eq_ok.mp hall
    obtain ⟨last, -, hall⟩ := bind_eq_ok.mp hall
    cases hall
    rw [List.length_append, List.length_singleton]
    omega
  · cases h
    show read.length = count + 1
    omega

/-- **There is a time for every sample, and one for the end of the last.** -/
theorem length_of_ofSamples {count : Nat} {times : Option (List (Value α))}
    (h : ofSamples count times start finish = .ok line) :
    line.timestamps.length = count + 1 := by
  obtain ⟨bare, hbare, rfl⟩ := map_eq_ok.mp h
  have hlength : bare.timestamps.length = count + 1 := by
    split at hbare
    · exact length_of_spread hbare
    · exact length_of_spread hbare
    · exact length_of_ofRecorded hbare
  simpa [marked] using hlength

/-- Times that are brought to a timeline are numbers. -/
theorem numbers_of_ofSamples {count : Nat} {times : List (Value α)}
    (h : ofSamples count (some times) start finish = .ok line) :
    ∀ time ∈ times, time.number?.isSome := by
  obtain ⟨bare, hbare, -⟩ := map_eq_ok.mp h
  split at hbare
  · rename_i hnone
    cases hnone
  · rename_i hnil
    cases hnil
    exact fun time htime => nomatch htime
  · rename_i given hgiven
    cases hgiven
    obtain ⟨_, -, hbare⟩ := bind_eq_ok.mp hbare
    obtain ⟨read, hread, -⟩ := bind_eq_ok.mp hbare
    intro time htime
    obtain ⟨x, -, hdiv⟩ := exists_of_forall₂ (mapM_eq_ok_iff.mp hread) htime
    unfold Value.div at hdiv
    cases hnumber : time.number? with
    | none => simp [hnumber] at hdiv
    | some y => rfl

end Timeline

/-! ## 2. Repair -/

namespace Repair

variable {missed : Value α → Value α → Value α → Except Fault Bool}

omit [Scalar α] in
theorem length_fromSample : ∀ (before sample : Value α) (rest : List (Value α)),
    (fromSample missed before sample rest).1.length = rest.length + 1
  | _, _, [] => rfl
  | before, sample, after :: rest => by
    unfold fromSample
    split
    · rfl
    · simp [length_fromSample sample after rest]

omit [Scalar α] in
/-- A sample of the outcome is one of those that are left, or the one before them. -/
theorem mem_of_mem_fromSample : ∀ {before sample : Value α} {rest : List (Value α)} {id : Value α},
    id ∈ (fromSample missed before sample rest).1 → id ∈ before :: sample :: rest
  | before, sample, [], id, h => List.mem_cons_of_mem _ h
  | before, sample, after :: rest, id, h => by
    unfold fromSample at h
    split at h
    · exact List.mem_cons_of_mem _ h
    · rename_i replaced hreplaced
      rcases List.mem_cons.mp h with rfl | hlater
      · split <;> simp
      · exact List.mem_cons_of_mem _ (mem_of_mem_fromSample hlater)

variable {top : Value α → Except Fault Nat} {ids : SystemIds α} {samples : List (Value α)}

theorem length_run (top : Value α → Except Fault Nat) (ids : SystemIds α)
    (samples : List (Value α)) : (run top ids samples).1.length = samples.length := by
  unfold run
  split
  · split
    · simp [length_fromSample]
    · rfl
  · rfl

/-- **No sample comes in by repair.** -/
theorem mem_of_mem_run {id : Value α} (h : id ∈ (run top ids samples).1) : id ∈ samples := by
  unfold run at h
  split at h
  · split at h
    · rcases List.mem_cons.mp h with rfl | hlater
      · exact List.mem_cons_self
      · exact mem_of_mem_fromSample hlater
    · exact h
  · exact h

/-- A sample and the top-level node of it can be looked up. -/
def Known (top : Value α → Except Fault Nat) (id : Value α) : Prop :=
  (∃ key, id.key = .ok key) ∧ ∃ place, top id = .ok place

theorem exists_isMissed {before after : Value α} (hbefore : Known top before)
    (hafter : Known top after) (program sample : Value α) (system : List Key) :
    ∃ missed, isMissed top program system before sample after = .ok missed := by
  obtain ⟨⟨keyBefore, hkeyBefore⟩, placeBefore, htopBefore⟩ := hbefore
  obtain ⟨⟨keyAfter, hkeyAfter⟩, placeAfter, htopAfter⟩ := hafter
  simp only [isMissed, hkeyBefore, hkeyAfter, htopBefore, htopAfter, ok_bind]
  split
  · exact ⟨_, rfl⟩
  split
  · exact ⟨_, rfl⟩
  split
  · exact ⟨_, rfl⟩
  · exact ⟨_, rfl⟩

theorem exists_fromSample {program : Value α} {system : List Key} : ∀ {before sample : Value α}
    {rest : List (Value α)}, Known top before → Known top sample → (∀ id ∈ rest, Known top id) →
    ∃ count, (fromSample (isMissed top program system) before sample rest).2 = .ok count
  | _, _, [], _, _, _ => ⟨0, rfl⟩
  | before, sample, after :: rest, hbefore, hsample, hrest => by
    obtain ⟨hafter, hrest⟩ := List.forall_mem_cons.mp hrest
    obtain ⟨missed, hmissed⟩ := exists_isMissed hbefore hafter program sample system
    obtain ⟨count, hcount⟩ := exists_fromSample hsample hafter hrest
    rw [fromSample, hmissed]
    exact ⟨_, map_eq_ok.mpr ⟨count, hcount, rfl⟩⟩

/-- **Samples that can be looked up can be repaired.** -/
theorem exists_run (hkeys : ∃ system, keys ids = .ok system)
    (hsamples : ∀ id ∈ samples, Known top id) : ∃ count, (run top ids samples).2 = .ok count := by
  obtain ⟨system, hkeys⟩ := hkeys
  match samples, hsamples with
  | [], _ => exact ⟨0, rfl⟩
  | [_], _ => exact ⟨0, rfl⟩
  | [_, _], _ => exact ⟨0, rfl⟩
  | first :: second :: third :: rest, hsamples =>
    obtain ⟨hfirst, hothers⟩ := List.forall_mem_cons.mp hsamples
    obtain ⟨hsecond, hrest⟩ := List.forall_mem_cons.mp hothers
    rw [run, hkeys]
    exact exists_fromSample hfirst hsecond hrest

end Repair
end SampledProfile
