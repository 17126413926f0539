/-
# What printed durations show

The text of a duration is read back by `Duration.shown?`: whole seconds, none where none are
written, and milliseconds with three places.

* `Duration.exists_shown`: a duration that is not negative shows its whole seconds, and together
  with the milliseconds it is off by at most half a thousandth.  The seconds are split off before
  the rest is rounded, though, so that the milliseconds may be rounded up to 1000.  They are below
  1000 exactly if the rest is not within half a thousandth of a second;
* `Summary.output_print`: a summary prints the text of the span of its model.
-/
import Mathlib.Data.Rat.Floor
import SampledProfile.Proofs.Effect
import SampledProfile.Proofs.Numeric.Places
import SampledProfile.Proofs.Outcome
import SampledProfile.Summary

namespace SampledProfile
namespace Duration

/-! ## 1. Reading -/

/-- The milliseconds that a text consists of. -/
def milliseconds? (cs : List Char) : Option Rat :=
  (Decimal.read? 3 cs).bind fun (milliseconds, rest) =>
    if rest = ['m', 's'] then some milliseconds else none

/-- The seconds and milliseconds that a text shows; no seconds are not written. -/
def shown? (text : String) : Option (Nat × Rat) :=
  let digits := Text.digitsOf text.toList
  match text.toList.drop digits.length with
  | 's' :: ' ' :: rest =>
    if Text.digitsValue digits = 0 then none
    else (milliseconds? rest).map fun milliseconds => (Text.digitsValue digits, milliseconds)
  | _ => (milliseconds? text.toList).map fun milliseconds => (0, milliseconds)

/-! ## 2. Exact durations -/

variable {duration : Rat}

/-- The text of so many whole seconds and a rest. -/
def textOf (seconds : Nat) (rest : Rat) : String :=
  (if seconds = 0 then "" else toString seconds ++ "s ") ++ (Exact.fixed 3 rest ++ "ms")

/-- The whole seconds are split off before anything is rounded. -/
theorem text_eq (h : 0 ≤ duration) :
    text (.num duration : Value Rat) =
      .ok (textOf ⌊duration / 1000⌋₊ (duration - 1000 * ⌊duration / 1000⌋₊)) := by
  have hfloor : (duration / 1000).floor = (⌊duration / 1000⌋₊ : Int) := by
    rw [Int.natCast_floor_eq_floor (by positivity)]
    rfl
  generalize ⌊duration / 1000⌋₊ = seconds at hfloor ⊢
  have hquotient : (Value.num duration : Value Rat).div (.int 1000) = .ok (duration / 1000) := rfl
  have hrest : (Value.num duration : Value Rat).sub (.int ((seconds : Int) * 1000)) =
      .ok (duration - 1000 * seconds) := by
    have hcast : (((seconds : Int) * 1000 : Int) : Rat) = 1000 * seconds := by
      push_cast
      ring
    rw [← hcast]
    rfl
  have hsplit : Scalar.floor (duration / 1000) = .ok (seconds : Int) := congrArg Except.ok hfloor
  have hfixed : ∀ rest : Rat, Scalar.fixed 3 rest = .ok (Exact.fixed 3 rest) := fun _ => rfl
  unfold text textOf
  simp only [hquotient, Outcome.ok_bind, hsplit, hrest, hfixed]
  rcases Nat.eq_zero_or_pos seconds with rfl | hpos
  · simp
  · simp [hpos.ne']
    rfl

theorem milliseconds?_fixed {rest : Rat} (h : 0 ≤ rest) :
    milliseconds? ((Exact.fixed 3 rest).toList ++ ['m', 's']) = some (Exact.nearest 3 rest) := by
  rw [milliseconds?, Exact.read?_fixed (by decide) h (by simp)]
  rfl

theorem shown?_textOf (seconds : Nat) {rest : Rat} (h : 0 ≤ rest) :
    shown? (textOf seconds rest) = some (seconds, Exact.nearest 3 rest) := by
  have hread := milliseconds?_fixed h
  rcases Nat.eq_zero_or_pos seconds with rfl | hpos
  · have htext : (textOf 0 rest).toList = (Exact.fixed 3 rest).toList ++ ['m', 's'] := by
      simp [textOf]
    have hplaces : Decimal.read? 3 ((Exact.fixed 3 rest).toList ++ ['m', 's']) =
        some (Exact.nearest 3 rest, ['m', 's']) := Exact.read?_fixed (by decide) h (by simp)
    obtain ⟨behind, hpoint⟩ := Decimal.exists_point_of_read? hplaces
    rw [shown?, htext, hpoint, hread]
    rfl
  · have htext : (textOf seconds rest).toList = (toString seconds).toList ++
        's' :: ' ' :: ((Exact.fixed 3 rest).toList ++ ['m', 's']) := by
      simp [textOf, hpos.ne']
    have hdigits : Text.digitsOf (textOf seconds rest).toList = (toString seconds).toList := by
      rw [htext]
      exact Text.digitsOf_append (Text.isDigit_toString seconds) (by simp)
    rw [shown?, hdigits, htext]
    simp only [List.drop_left, Text.digitsValue_toString, hread]
    rw [if_neg hpos.ne', Option.map_some]

/-- **A duration that is not negative shows its whole seconds, and is off by at most half a
thousandth.  The milliseconds are below 1000 exactly if what is left of a second is not within half
a thousandth of the next one.** -/
theorem exists_shown (h : 0 ≤ duration) :
    ∃ shown seconds milliseconds, text (.num duration : Value Rat) = .ok shown ∧
      shown? shown = some (seconds, milliseconds) ∧ seconds = ⌊duration / 1000⌋₊ ∧
      0 ≤ milliseconds ∧ milliseconds ≤ 1000 ∧
      |1000 * seconds + milliseconds - duration| ≤ 1 / 2000 ∧
      (milliseconds < 1000 ↔ duration - 1000 * seconds < 1000 - 1 / 2000) := by
  have hlow : 1000 * (⌊duration / 1000⌋₊ : Rat) ≤ duration := by
    have := Nat.floor_le (show 0 ≤ duration / 1000 by positivity)
    linarith
  have hhigh : duration < 1000 * (⌊duration / 1000⌋₊ : Rat) + 1000 := by
    have := Nat.lt_floor_add_one (duration / 1000)
    linarith
  have hrest : 0 ≤ duration - 1000 * (⌊duration / 1000⌋₊ : Rat) := by linarith
  have htext := text_eq h
  generalize ⌊duration / 1000⌋₊ = seconds at *
  have hnear := Exact.abs_nearest_sub_le 3 hrest
  have hbelow := Exact.nearest_lt_iff (show 0 < 3 by decide) hrest 1000
  have hsum : 1000 * (seconds : Rat) + Exact.nearest 3 (duration - 1000 * seconds) - duration =
      Exact.nearest 3 (duration - 1000 * seconds) - (duration - 1000 * seconds) := by ring
  norm_num at hnear hbelow
  refine ⟨_, seconds, Exact.nearest 3 (duration - 1000 * seconds), htext,
    shown?_textOf seconds hrest, rfl, Exact.nearest_nonneg 3 _, ?_, ?_, ?_⟩
  · have hle : duration - 1000 * seconds ≤ (1000 : Nat) := by
      push_cast
      linarith
    exact_mod_cast Exact.nearest_le 3 hrest hle
  · rw [hsum]
    norm_num
    exact hnear
  · rw [hbelow]
    norm_num

end Duration

/-! ## 3. The summary -/

namespace Task

variable {β γ : Type}

/-- Whatever comes of the work, it only adds to what has been printed. -/
def Adds (work : Task β) : Prop :=
  ∀ w, ∃ more, (Effect.run work w).2.transcript.output = w.transcript.output ++ more

theorem adds_pure (b : β) : Adds (pure b) := by
  intro w
  exact ⟨"", by simp⟩

theorem adds_take (result : Except Fault β) : Adds (take result) := by
  intro w
  exact ⟨"", by simp [take]⟩

theorem run_take (result : Except Fault β) (w : Workspace) :
    Effect.run (take result) w = (result, w) := rfl

theorem adds_get : Adds (get : Task Workspace) := by
  intro w
  exact ⟨"", by simp⟩

theorem run_print (text : String) (w : Workspace) :
    Effect.run (print text) w =
      (.ok ⟨⟩, { w with transcript.output := w.transcript.output ++ text }) := rfl

theorem adds_print (text : String) : Adds (print text) := by
  intro w
  exact ⟨text, rfl⟩

theorem Adds.bind {work : Task β} {next : β → Task γ} (h : Adds work)
    (hnext : ∀ b, Adds (next b)) : Adds (work >>= next) := by
  intro w
  obtain ⟨more, hmore⟩ := h w
  rw [Effect.run_bind]
  rcases hrun : Effect.run work w with ⟨_ | b, left⟩
  · rw [hrun] at hmore
    exact ⟨more, hmore⟩
  · rw [hrun] at hmore
    obtain ⟨rest, hrest⟩ := hnext b left
    exact ⟨more ++ rest, by rw [hrest, hmore, String.append_assoc]⟩

theorem adds_forIn {body : β → PUnit → Task (ForInStep PUnit)} (h : ∀ b r, Adds (body b r)) :
    ∀ (items : List β) (result : PUnit), Adds (forIn items result body)
  | [], _ => adds_pure _
  | b :: rest, result => by
    rw [List.forIn_cons]
    refine (h b result).bind fun step => ?_
    cases step with
    | done result => exact adds_pure _
    | yield result => exact adds_forIn h rest result

end Task

namespace Summary

open SampledProfile.Task

variable {model : Model Number} {duration : Number} {shown : String}

theorem adds_printDetails (model : Model Number) : Adds (printDetails model) := by
  unfold printDetails
  refine (adds_take _).bind fun line => (adds_print _).bind fun _ => (adds_print _).bind fun _ => ?_
  refine (adds_forIn (fun call _ => ?_) _ _).bind fun _ => adds_pure _
  exact (adds_take _).bind fun line => (adds_print _).bind fun _ => adds_pure _

/-- **A summary prints the text of the span of its model behind the path.** -/
theorem output_print (path : String) (count : Int) (w : Workspace)
    (hspan : model.finish.sub model.start = .ok duration)
    (hshown : Duration.text (.num duration) = .ok shown) :
    ∃ more, (Effect.run (print path model count) w).2.transcript.output =
      w.transcript.output ++ Style.bold.line ("profile: " ++ path) ++
        ("duration: " ++ shown ++ "\n") ++ more := by
  unfold print
  rw [Effect.run_bind, hspan, run_take]
  dsimp only
  rw [Effect.run_bind, run_print]
  dsimp only
  rw [Effect.run_bind, hshown, run_take]
  dsimp only
  rw [Effect.run_bind, printLine, run_print]
  dsimp only
  refine Adds.bind (adds_print _) (fun _ => ?_) _
  -- two lines are there or not, and what follows them is the same
  have hnodes : Adds (do
      let calls := top count (← take (ranked model))
      Task.print ("\nTop " ++ toString calls.length ++ " by self time:\n")
      for call in calls do
        printLine (← take (nodeLine duration call))) := by
    refine (adds_take _).bind fun calls => (adds_print _).bind fun _ => ?_
    refine (adds_forIn (fun call _ => ?_) _ _).bind fun _ => adds_pure _
    exact (adds_take _).bind fun line => (adds_print _).bind fun _ => adds_pure _
  have hdetails : Adds (do
      if (← get).settings.verbose.truthy then printDetails model
      let calls := top count (← take (ranked model))
      Task.print ("\nTop " ++ toString calls.length ++ " by self time:\n")
      for call in calls do
        printLine (← take (nodeLine duration call))) := by
    refine adds_get.bind fun w => ?_
    dsimp only
    split
    · exact (adds_printDetails model).bind fun _ => hnodes
    · exact hnodes
  split
  · exact (adds_print _).bind fun _ => hdetails
  · exact hdetails

end Summary

/-! ## 4. Durations as they are printed -/

namespace Duration

/-- **What the printed text of a duration shows.**  A duration that is not negative is off by at
most half a thousandth from the whole seconds and the milliseconds that are shown.  The milliseconds
are below 1000 but for the last half thousandth of a second, where they are rounded up to 1000 after
the seconds have been split off.  A summary prints this text of the span of its model. -/
theorem shows_duration {duration : Rat} (h : 0 ≤ duration) (path : String) (model : Model Number)
    (count : Int) (w : Workspace) :
    (∃ shown seconds milliseconds, text (.num duration : Value Rat) = .ok shown ∧
      shown? shown = some (seconds, milliseconds) ∧ seconds = ⌊duration / 1000⌋₊ ∧
      0 ≤ milliseconds ∧ milliseconds ≤ 1000 ∧
      |1000 * seconds + milliseconds - duration| ≤ 1 / 2000 ∧
      (milliseconds < 1000 ↔ duration - 1000 * seconds < 1000 - 1 / 2000)) ∧
    ∀ (span : Number) (shown : String), model.finish.sub model.start = .ok span →
      text (.num span) = .ok shown →
      ∃ more, (Effect.run (Summary.print path model count) w).2.transcript.output =
        w.transcript.output ++ Style.bold.line ("profile: " ++ path) ++
          ("duration: " ++ shown ++ "\n") ++ more :=
  ⟨exists_shown h, fun _ _ => Summary.output_print path count w⟩

/-- A profile of 12345.678 milliseconds. -/
def spanProfile : Value Number :=
  .obj [("nodes", .list [.obj [("id", .int 1), ("children", .list [])]]),
    ("samples", .list [.int 1]), ("endTime", .int 12345678)]

theorem shows_duration_spanProfile :
    (∃ seconds milliseconds, shown? "12s 345.678ms" = some (seconds, milliseconds) ∧
      |1000 * seconds + milliseconds - 123456785 / 10000| ≤ 1 / 2000) ∧
    ∃ model more, Model.load spanProfile false = .ok model ∧
      (Effect.run (Summary.print "t.json" model 20)
          (Workspace.start Directory.empty)).2.transcript.output =
        Style.bold.line "profile: t.json" ++ "duration: 12s 345.678ms\n" ++ more := by
  have hprinted : (do
      let model ← Model.load spanProfile false
      text (.num (← model.finish.sub model.start))) = .ok "12s 345.678ms" := by
    decide +kernel
  obtain ⟨model, hmodel, hprinted⟩ := Outcome.bind_eq_ok.mp hprinted
  obtain ⟨span, hspan, hshown⟩ := Outcome.bind_eq_ok.mp hprinted
  obtain ⟨⟨shown, seconds, milliseconds, htext, hread, -, -, -, hnear, -⟩, hsummary⟩ :=
    shows_duration (show (0 : Rat) ≤ 123456785 / 10000 by norm_num) "t.json" model 20
      (Workspace.start Directory.empty)
  -- half a thousandth is rounded to the even one
  have heven : text (.num (123456785 / 10000) : Value Rat) = .ok "12s 345.678ms" := by
    decide +kernel
  obtain rfl : "12s 345.678ms" = shown := Except.ok.inj (heven.symm.trans htext)
  obtain ⟨more, hmore⟩ := hsummary span _ hspan hshown
  exact ⟨⟨seconds, milliseconds, hread, hnear⟩, model, more, hmodel, hmore⟩

/-- Just below a full second the milliseconds are a full second, for exact durations and doubles. -/
theorem text_fullSecond :
    text (.num (9999996 / 10000) : Value Rat) = .ok "1000.000ms" ∧
      shown? "1000.000ms" = some (0, 1000) ∧
      text (.num (.real (Binary64.ofDecimal false 9999996 7 (-4))) : Value Number) =
        .ok "1000.000ms" := by
  decide +kernel

end Duration
end SampledProfile
