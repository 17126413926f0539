/-
# Printed durations

A duration in milliseconds is shown as whole seconds, left out if there are none, and the
milliseconds that remain, with three places: `12s 345.678ms`.
-/
import SampledProfile.Value.Arithmetic

namespace SampledProfile
namespace Duration

variable {α : Type} [Scalar α]

/-- A value that has to be a number, with so many places after the point. -/
def fixedText (places : Nat) (v : Value α) : Except Fault String :=
  match v, v.number? with
  | _, some x => Scalar.fixed places x
  | .str _, none => .error .badValue
  | _, none => .error .wrongType

/-- The text of a duration in milliseconds. -/
def text (duration : Value α) : Except Fault String := do
  let seconds ← Scalar.floor (← duration.div (.int 1000))
  let rest ← duration.sub (.int (seconds * 1000))
  let milliseconds := (← Scalar.fixed 3 rest) ++ "ms"
  if seconds = 0 then return milliseconds
  else return toString seconds ++ "s " ++ milliseconds

end Duration
end SampledProfile
