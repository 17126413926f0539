/-
# The times of the samples

A `Timeline` has the time of every sample in milliseconds and one time more, the end of the last
sample.

* Without recorded times the samples are spread evenly over the span of the profile
  (`Timeline.spread`).
* Recorded times are brought from microseconds to milliseconds.  There may be one for every sample,
  and then the end is extrapolated by the average distance, or one more, which is the end; the span
  of the profile is then that of the times (`Timeline.ofRecorded`).

A time without a value is known by its position (`Timeline.marked`).
-/
import SampledProfile.Value.Arithmetic

namespace SampledProfile

/-- The times of samples and the span they fill. -/
structure Timeline (α : Type) where
  timestamps : List α
  start : Value α
  finish : Value α

namespace Timeline

variable {α : Type} [Scalar α]

/-- The distance of so many samples spread evenly over a span. -/
def interval (count : Nat) (start finish : Value α) : Except Fault α :=
  if count = 0 then .ok 0
  else do Scalar.div? (← finish.sub start) (Scalar.ofInt count)

/-- The time of the sample at a position when samples are so far apart. -/
def spreadTime (start : Value α) (interval : α) (position : Nat) : Except Fault α := do
  let offset ← Scalar.mul? (Scalar.ofInt position) interval
  (← start.add (.num offset)).number

/-- So many samples spread evenly over a span. -/
def spread (count : Nat) (start finish : Value α) : Except Fault (Timeline α) := do
  let interval ← interval count start finish
  let timestamps ← (List.range (count + 1)).mapM (spreadTime start interval)
  return ⟨timestamps, start, finish⟩

/-- The average distance of times from the first to the last. -/
def averageStep (first last : α) (count : Nat) : Except Fault α :=
  if 1 < count then do Scalar.div? (← Scalar.sub? last first) (Scalar.ofInt (Int.ofNat count - 1))
  else .ok 0

/-- The times with one more at the end, as far from the last as the others are on average. -/
def extrapolate (first : α) (times : List α) : Except Fault (List α) := do
  let last := times.getLastD first
  let step ← averageStep first last times.length
  return times ++ [← Scalar.add? last step]

/-- Refuses a number of times that does not fit the number of samples. -/
def checkCounts (samples times : Nat) : Except Fault Unit :=
  if samples ≤ times && times ≤ samples + 1 then .ok ()
  else .error (.malformed (.countMismatch samples times))

/-- So many samples with recorded times in microseconds. -/
def ofRecorded (count : Nat) (times : List (Value α)) : Except Fault (Timeline α) := do
  checkCounts count times.length
  let times ← times.mapM (·.div (.int 1000))
  let first := times.headD 0
  let times ← if count = times.length then extrapolate first times else .ok times
  return ⟨times, .num first, .num (times.getLastD first)⟩

/-- The timeline with every time that has no value known by its position. -/
def marked (line : Timeline α) : Timeline α :=
  { line with timestamps := line.timestamps.zipIdx.map fun entry => Scalar.mark entry.2 entry.1 }

/-- The timeline of so many samples: from the recorded times if there are any, and over the span
of the profile otherwise. -/
def ofSamples (count : Nat) (times : Option (List (Value α))) (start finish : Value α) :
    Except Fault (Timeline α) :=
  marked <$>
    match times with
    | none => spread count start finish
    | some [] => spread count start finish
    | some times => ofRecorded count times

end Timeline
end SampledProfile
