/-
# The times of the samples are in order

Read exactly, all times are comparable.

* Sorting puts times in order, and what it does to them does not depend on the samples
  (`Samples.sort_eq`, `Samples.pairwise_inTime`).
* Brought to milliseconds they stay in order, and a bound that is extrapolated is not below any of
  them (`Timeline.inOrder_of_ofRecorded`).
* Samples that are spread over the span of the profile fill it, and are in order if it does not run
  backwards (`Timeline.pairwise_of_spread`).

A bound that comes with the samples is not put in order (`Timeline.InOrder`).
-/
import Mathlib.Algebra.Order.Field.Basic
import Mathlib.Algebra.Order.Ring.Rat
import Mathlib.Tactic.Linarith
import Mathlib.Tactic.Positivity
import SampledProfile.Numeric.Exact
import SampledProfile.Proofs.Samples.Stability
import SampledProfile.Proofs.Samples.Stream

namespace SampledProfile

open Outcome

/-! ## 1. Times -/

namespace Samples

variable {σ : Type}

/-- What a value is as a number. -/
def moment (v : Value Rat) : Rat := v.number?.getD 0

theorem isDefined_iff {v : Value Rat} : isDefined v = true ↔ v.number?.isSome := by
  unfold isDefined
  cases v.number? <;> simp [Scalar.exact, Magnitude.isDefined]

/-- Numbers are in line by what they are. -/
theorem rankOf_le_rankOf {a b : Value Rat} (ha : a.number?.isSome) (hb : b.number?.isSome) :
    rankOf a ≤ rankOf b ↔ moment a ≤ moment b := by
  obtain ⟨x, hx⟩ := Option.isSome_iff_exists.mp ha
  obtain ⟨y, hy⟩ := Option.isSome_iff_exists.mp hb
  rw [rankOf, rankOf, moment, moment, hx, hy]
  show (((x : WithTop Rat) : WithBot (WithTop Rat)) ≤ (y : WithTop Rat)) ↔ x ≤ y
  rw [WithBot.coe_le_coe, WithTop.coe_le_coe]

/-- Times in order. -/
def inTime (times : List (Value Rat)) : List (Value Rat) :=
  times.mergeSort fun a b => decide (moment a ≤ moment b)

theorem pairwise_inTime (times : List (Value Rat)) :
    (inTime times).Pairwise fun a b => moment a ≤ moment b := by
  have hpairwise : (inTime times).Pairwise fun a b => decide (moment a ≤ moment b) = true :=
    List.pairwise_mergeSort
      (fun a b c hab hbc =>
        decide_eq_true ((of_decide_eq_true hab).trans (of_decide_eq_true hbc)))
      (fun a b => by simpa using le_total (moment a) (moment b)) times
  exact hpairwise.imp fun hle => of_decide_eq_true hle

/-- **As many times as there are samples are put in order, whatever the samples are.** -/
theorem sort_eq (samples : List σ) {times : List (Value Rat)}
    (h : ∀ time ∈ times, time.number?.isSome) :
    ∃ ordered, sort samples times =
      .ok (ordered, inTime (times.take samples.length) ++ times.drop samples.length) := by
  have hsorted : (chronological samples times).map Prod.snd =
      inTime (times.take samples.length) := by
    rw [List.take_eq_take_min, ← map_snd_zip_eq]
    refine List.map_mergeSort fun p hp q hq => decide_eq_decide.mpr ?_
    exact rankOf_le_rankOf (h _ (List.of_mem_zip hp).2) (h _ (List.of_mem_zip hq).2)
  have hdrop : times.drop (min samples.length times.length) = times.drop samples.length := by
    rcases Nat.le_total samples.length times.length with hle | hle
    · rw [Nat.min_eq_left hle]
    · rw [Nat.min_eq_right hle, List.drop_length, List.drop_eq_nil_of_le hle]
  obtain ⟨sources, horder, hpairs⟩ := exists_order_eq_chronological samples fun time htime =>
    isDefined_iff.mpr (h time (List.mem_of_mem_take htime))
  rw [sort_eq_map_order, horder, ← hsorted, ← hdrop, ← length_chronological, ← hpairs]
  exact ⟨_, rfl⟩

/-- The times of the samples are in order then, and a bound is where it was. -/
theorem pairwise_of_sort {samples ordered : List σ} {times sorted : List (Value Rat)}
    (hnumbers : ∀ time ∈ times, time.number?.isSome)
    (h : sort samples times = .ok (ordered, sorted)) :
    (sorted.take samples.length).Pairwise (fun a b => moment a ≤ moment b) ∧
      sorted[samples.length]? = times[samples.length]? := by
  obtain ⟨_, heq⟩ := sort_eq samples hnumbers
  obtain ⟨-, rfl⟩ := Prod.mk.inj (Except.ok.inj (h.symm.trans heq))
  have hpairwise : (inTime (times.take samples.length)).Pairwise fun a b => moment a ≤ moment b :=
    pairwise_inTime _
  have hlength : (inTime (times.take samples.length)).length =
      min samples.length times.length := by
    rw [inTime, (List.mergeSort_perm _ _).length_eq, List.length_take]
  rcases Nat.le_total samples.length times.length with hle | hle
  · rw [Nat.min_eq_left hle] at hlength
    constructor
    · rw [List.take_append_of_le_length hlength.ge, List.take_of_length_le hlength.le]
      exact hpairwise
    · rw [List.getElem?_append_right hlength.le, hlength, Nat.sub_self, List.getElem?_drop,
        Nat.add_zero]
  · rw [Nat.min_eq_right hle] at hlength
    rw [List.drop_eq_nil_of_le hle, List.append_nil, List.getElem?_eq_none (by omega),
      List.getElem?_eq_none hle]
    exact ⟨hpairwise.sublist (List.take_sublist _ _), rfl⟩

end Samples

/-! ## 2. Timelines -/

namespace Timeline

open Samples (moment)

variable {line : Timeline Rat} {count : Nat}

/-- The profile starts at the first time and ends at the last. -/
structure Spans (line : Timeline Rat) : Prop where
  start : line.start.number? = line.timestamps.head?
  finish : line.finish.number? = line.timestamps.getLast?

/-- The times of the samples are in order; the bound need not be. -/
structure InOrder (count : Nat) (line : Timeline Rat) : Prop extends Spans line where
  samples : (line.timestamps.take count).Pairwise (· ≤ ·)

/-- A last time that is not below the others keeps them in order. -/
theorem pairwise_of_take {times : List Rat} (hlength : times.length = count + 1)
    (h : (times.take count).Pairwise (· ≤ ·))
    (hbound : ∀ bound, times[count]? = some bound → ∀ time ∈ times.take count, time ≤ bound) :
    times.Pairwise (· ≤ ·) := by
  rw [← List.take_append_drop count times, List.drop_eq_getElem_cons (by omega),
    List.drop_eq_nil_of_le (by omega)]
  refine List.pairwise_append.mpr ⟨h, List.pairwise_singleton _ _, fun time htime bound hmem => ?_⟩
  rw [List.mem_singleton.mp hmem]
  exact hbound _ (List.getElem?_eq_getElem (by omega)) time htime

/-- Only numbers are brought to milliseconds. -/
theorem eq_map_of_div {times : List (Value Rat)} {read : List Rat}
    (h : times.mapM (fun time => time.div (.int 1000)) = .ok read) :
    (∀ time ∈ times, time.number?.isSome) ∧ read = times.map fun time => moment time / 1000 := by
  have hdiv : ∀ (time : Value Rat) (x : Rat), time.div (.int 1000) = .ok x →
      time.number?.isSome ∧ x = moment time / 1000 := fun time x htime => by
    unfold Value.div at htime
    unfold Samples.moment
    cases hnumber : time.number? with
    | none => simp [hnumber] at htime
    | some y =>
      rw [hnumber] at htime
      exact ⟨rfl, (Except.ok.inj htime).symm⟩
  have hall := mapM_eq_ok_iff.mp h
  clear h
  induction hall with
  | nil => exact ⟨by simp, rfl⟩
  | cons hhead _ ih =>
    obtain ⟨hsome, rfl⟩ := hdiv _ _ hhead
    obtain ⟨hrest, rfl⟩ := ih
    exact ⟨List.forall_mem_cons.mpr ⟨hsome, hrest⟩, rfl⟩

/-- The average distance of times in order is not negative. -/
theorem exists_averageStep {first last : Rat} (h : first ≤ last) (count : Nat) :
    ∃ step, averageStep first last count = .ok step ∧ 0 ≤ step := by
  unfold averageStep
  split
  · rename_i hcount
    have hpos : (0 : Rat) < ((Int.ofNat count - 1 : Int) : Rat) := by
      have : (0 : Int) < Int.ofNat count - 1 := by
        have : (1 : Int) < Int.ofNat count := Int.ofNat_lt.mpr hcount
        omega
      exact_mod_cast this
    refine ⟨(last - first) / ((Int.ofNat count - 1 : Int) : Rat), ?_,
      div_nonneg (sub_nonneg.mpr h) hpos.le⟩
    simp only [Scalar.sub?, Scalar.div?, Scalar.guarded, Scalar.combineFault,
      Scalar.quotientFault, Scalar.ofInt, if_neg hpos.ne']
    rfl
  · exact ⟨0, rfl, le_refl 0⟩

/-- What is extrapolated from times in order is not below any of them. -/
theorem exists_extrapolate {first : Rat} {times : List Rat} (hne : times ≠ [])
    (hhead : times.headD 0 = first) (h : times.Pairwise (· ≤ ·)) :
    ∃ bound, extrapolate first times = .ok (times ++ [bound]) ∧ ∀ time ∈ times, time ≤ bound := by
  have hlast : times.getLastD first = times.getLast hne := by
    rw [List.getLastD_eq_getLast?, List.getLast?_eq_some_getLast hne, Option.getD_some]
  have hmost : ∀ time ∈ times, time ≤ times.getLast hne := fun time htime => h.rel_getLast htime
  have hfirst : first ≤ times.getLast hne := by
    refine hmost first ?_
    rw [← hhead, List.headD_eq_head?_getD, List.head?_eq_some_head hne]
    exact List.head_mem hne
  obtain ⟨step, hstep, hnonneg⟩ := exists_averageStep hfirst times.length
  refine ⟨times.getLast hne + step, ?_, fun time htime => ?_⟩
  · rw [extrapolate, hlast]
    simp only [hstep]
    rfl
  · have := hmost time htime
    linarith

/-- **Recorded times that are in order stay so, whatever becomes of the bound.** -/
theorem inOrder_of_ofRecorded {times : List (Value Rat)} (hcount : 0 < count)
    (hsorted : (times.take count).Pairwise fun a b => moment a ≤ moment b)
    (h : ofRecorded count times = .ok line) :
    line.InOrder count ∧
      ((∀ bound, times[count]? = some bound →
        ∀ time ∈ times.take count, moment time ≤ moment bound) →
      line.timestamps.Pairwise (· ≤ ·)) := by
  obtain ⟨_, hcounts, h⟩ := bind_eq_ok.mp h
  obtain ⟨read, hread, h⟩ := bind_eq_ok.mp h
  obtain ⟨-, heq⟩ := eq_map_of_div hread
  have hlength : read.length = times.length := length_of_mapM hread
  obtain ⟨hleast, hmost⟩ := bounds_of_checkCounts hcounts
  have hne : read ≠ [] := List.length_pos_iff.mp (by omega)
  have hscaled : (read.take count).Pairwise (· ≤ ·) := by
    rw [heq, ← List.map_take, List.pairwise_map]
    exact hsorted.imp fun hle => div_le_div_of_nonneg_right hle (by norm_num)
  dsimp only at h
  split at h
  · rename_i hcountEq
    rw [hcountEq, List.take_length] at hscaled
    obtain ⟨bound, hbound, hlast⟩ := exists_extrapolate hne rfl hscaled
    obtain ⟨all, hall, h⟩ := bind_eq_ok.mp h
    obtain rfl := Except.ok.inj (hbound.symm.trans hall)
    cases h
    have hpairwise : (read ++ [bound]).Pairwise (· ≤ ·) :=
      List.pairwise_append.mpr ⟨hscaled, List.pairwise_singleton _ _, fun time htime other hother =>
        List.mem_singleton.mp hother ▸ hlast time htime⟩
    refine ⟨⟨⟨?_, by simp [Value.number?]⟩, hpairwise.sublist (List.take_sublist _ _)⟩,
      fun _ => hpairwise⟩
    obtain ⟨first, rest, rfl⟩ := List.exists_cons_of_ne_nil hne
    rfl
  · cases h
    refine ⟨⟨⟨?_, ?_⟩, hscaled⟩, fun hbound => ?_⟩
    · obtain ⟨first, rest, rfl⟩ := List.exists_cons_of_ne_nil hne
      rfl
    · simp [Value.number?, List.getLast?_eq_some_getLast hne, List.getLastD_eq_getLast?]
    · refine pairwise_of_take (show read.length = count + 1 by omega) hscaled ?_
      intro bound hget time htime
      rw [heq, List.getElem?_map] at hget
      rw [heq, ← List.map_take] at htime
      obtain ⟨given, hgiven, rfl⟩ := Option.map_eq_some_iff.mp hget
      obtain ⟨other, hother, rfl⟩ := List.mem_map.mp htime
      exact div_le_div_of_nonneg_right (hbound given hgiven other hother) (by norm_num)

theorem numbers_of_sub {a b : Value Rat} {x : Rat} (h : a.sub b = .ok x) :
    ∃ y z, a.number? = some y ∧ b.number? = some z ∧ x = y - z := by
  unfold Value.sub at h
  split at h
  · rename_i y z hy hz
    exact ⟨y, z, hy, hz, (Except.ok.inj h).symm⟩
  · cases h

/-- The time of a sample when samples are spread evenly. -/
theorem spreadTime_eq {start : Value Rat} {s : Rat} (hstart : start.number? = some s) (step : Rat)
    (position : Nat) : spreadTime start step position = .ok (s + position * step) := by
  have hadd : ∀ offset : Rat, start.add (.num offset) = .ok (.num (s + offset)) := fun offset => by
    cases start with
    | num value =>
      cases hstart
      rfl
    | bool value =>
      cases hstart
      rfl
    | _ => cases hstart
  have hoffset : Scalar.mul? (Scalar.ofInt position) step = .ok ((position : Rat) * step) := by
    simp only [Scalar.mul?, Scalar.guarded, Scalar.combineFault, Scalar.ofInt, Int.cast_natCast]
  rw [spreadTime, hoffset]
  simp only [bind, Except.bind, hadd]
  rfl

/-- The distance of samples that fill a span. -/
theorem step_of_interval {start finish : Value Rat} {step : Rat} (hcount : 0 < count)
    (h : interval count start finish = .ok step) :
    ∃ s f, start.number? = some s ∧ finish.number? = some f ∧ step = (f - s) / count := by
  rw [interval, if_neg hcount.ne'] at h
  obtain ⟨span, hspan, hdiv⟩ := bind_eq_ok.mp h
  obtain ⟨f, s, hf, hs, rfl⟩ := numbers_of_sub hspan
  have hne : ((count : Int) : Rat) ≠ 0 := by exact_mod_cast hcount.ne'
  simp only [Scalar.div?, Scalar.guarded, Scalar.quotientFault, Scalar.ofInt, if_neg hne,
    Except.ok.injEq] at hdiv
  exact ⟨s, f, hs, hf, by rw [← hdiv, Int.cast_natCast]⟩

/-- **Samples that are spread over a span fill it, and they are in order if it does not run
backwards.** -/
theorem pairwise_of_spread {start finish : Value Rat} (hcount : 0 < count)
    (hspan : ∀ s f, start.number? = some s → finish.number? = some f → s ≤ f)
    (h : spread count start finish = .ok line) :
    line.Spans ∧ line.timestamps.Pairwise (· ≤ ·) := by
  obtain ⟨step, hstep, h⟩ := bind_eq_ok.mp h
  obtain ⟨times, htimes, h⟩ := bind_eq_ok.mp h
  cases h
  obtain ⟨s, f, hs, hf, rfl⟩ := step_of_interval hcount hstep
  have hpos : (0 : Rat) < count := Nat.cast_pos.mpr hcount
  obtain rfl : times = (List.range (count + 1)).map fun position =>
      s + (position : Nat) * ((f - s) / count) := by
    exact Except.ok.inj (htimes.symm.trans
      (mapM_eq_ok_of_forall fun position _ => spreadTime_eq hs _ position))
  refine ⟨⟨?_, ?_⟩, ?_⟩
  · rw [hs, List.range_succ_eq_map]
    simp
  · rw [hf, List.range_succ]
    simp only [List.map_append, List.map_cons, List.map_nil, List.getLast?_append,
      List.getLast?_singleton, Option.some_or]
    rw [mul_div_cancel₀ _ hpos.ne', add_sub_cancel]
  · rw [List.pairwise_map]
    have hnonneg : 0 ≤ (f - s) / count :=
      div_nonneg (sub_nonneg.mpr (hspan s f hs hf)) hpos.le
    refine List.pairwise_lt_range.imp fun hlt => ?_
    have hcast := mul_le_mul_of_nonneg_right (Nat.cast_le (α := Rat).mpr hlt.le) hnonneg
    linarith

/-- Read exactly, every time has a value. -/
theorem marked_eq (line : Timeline Rat) : line.marked = line := by
  have hmarked : (line.timestamps.zipIdx.map fun entry => Scalar.mark entry.2 entry.1) =
      line.timestamps := List.zipIdx_map_fst 0 line.timestamps
  rw [marked, hmarked]

theorem inOrder_of_ofSamples {times : Option (List (Value Rat))} {start finish : Value Rat}
    (hcount : 0 < count)
    (hspan : ∀ s f, start.number? = some s → finish.number? = some f → s ≤ f)
    (hsorted : ∀ given, times = some given →
      (given.take count).Pairwise fun a b => moment a ≤ moment b)
    (h : ofSamples count times start finish = .ok line) :
    line.InOrder count ∧
      ((∀ given bound, times = some given → given[count]? = some bound →
        ∀ time ∈ given.take count, moment time ≤ moment bound) →
      line.timestamps.Pairwise (· ≤ ·)) := by
  obtain ⟨bare, hbare, rfl⟩ := map_eq_ok.mp h
  rw [marked_eq]
  have hspread : spread count start finish = .ok bare →
      bare.InOrder count ∧ bare.timestamps.Pairwise (· ≤ ·) := fun h => by
    obtain ⟨hspans, hpairwise⟩ := pairwise_of_spread hcount hspan h
    exact ⟨⟨hspans, hpairwise.sublist (List.take_sublist _ _)⟩, hpairwise⟩
  split at hbare
  · exact (hspread hbare).imp_right fun hpairwise _ => hpairwise
  · exact (hspread hbare).imp_right fun hpairwise _ => hpairwise
  · rename_i given hgiven
    obtain ⟨horder, hpairwise⟩ := inOrder_of_ofRecorded hcount (hsorted given rfl) hbare
    exact ⟨horder, fun hbound => hpairwise fun bound => hbound given bound rfl⟩

end Timeline

end SampledProfile
