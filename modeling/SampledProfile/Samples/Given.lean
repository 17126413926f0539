/-
# Samples as they are given

Samples and times should be lists.  A file may hold something else in their place, and then it
depends on the work to be done whether that is met: a text has items that can be looked at and not
replaced, an object has none under a number, and of other values not even the number of items is
known.

* `Given.sort`, `Given.timeline`, `Given.repair` are `Samples.sort`, `Timeline.ofSamples` and
  `Repair.run` for values of any kind.  On lists they are the same.
-/
import SampledProfile.Samples.Order
import SampledProfile.Samples.Repair
import SampledProfile.Samples.Timeline
import SampledProfile.Value.Text

namespace SampledProfile
namespace Given

variable {α : Type} [Scalar α]

/-- Why there is nothing to be found, or replaced, at a position of a value that is no list. -/
def faultAt (v : Value α) (position : Nat) : Fault :=
  match v with
  | .obj _ => .missingField (toString position)
  | _ => .wrongType

/-- The items that stand at the positions of a value, so many of them. -/
def itemsAt (v : Value α) (count : Nat) : Except Fault (List (Value α)) :=
  match v with
  | .obj _ => if count = 0 then .ok [] else .error (faultAt v 0)
  | v => v.items

/-! ## 1. Sorting -/

/-- The positions of samples in the order of their times. -/
def order (samples times : Value α) : Except Fault (List Nat) := do
  let count := min (← samples.size) (← times.size)
  Samples.order count (← itemsAt times count)

/-- Samples and times in the order of the times.  A first move that cannot be made ends it. -/
def sort (samples times : Value α) : (Value α × Value α) × Except Fault Unit :=
  match order samples times with
  | .error fault => ((samples, times), .error fault)
  | .ok order =>
    match order.zipIdx.find? fun move => move.1 ≠ move.2 with
    | none => ((samples, times), .ok ())
    | some (source, target) =>
      match samples, times with
      | .list ids, .list moments =>
        match Samples.sort ids moments with
        | .ok (ids, moments) => ((.list ids, .list moments), .ok ())
        | .error fault => ((samples, times), .error fault)
      | .list ids, _ =>
        ((.list (ids.set target (ids.getD source .null)), times), .error (faultAt times target))
      | _, _ => ((samples, times), .error (faultAt samples target))

/-! ## 2. Times -/

/-- The timeline of samples with times, if there are any, and over a span otherwise. -/
def timeline (samples times start finish : Value α) : Except Fault (Timeline α) := do
  let count ← samples.size
  match times with
  | .list times => Timeline.ofSamples count (some times) start finish
  | times =>
    if times.truthy then
      Timeline.checkCounts count (← times.size)
      throw (faultAt times 0)
    else Timeline.ofSamples count none start finish

/-! ## 3. Repair -/

/-- The samples with missed ones replaced, and how many were. -/
def repair (top : Value α → Except Fault Nat) (ids : SystemIds α) (samples : Value α) :
    Value α × Except Fault Nat :=
  match samples, samples.items with
  | .list items, _ =>
    let (items, count) := Repair.run top ids items
    (.list items, count)
  | _, .error fault => (samples, .error fault)
  | .obj _, .ok items =>
    if items.length < 3 then (samples, .ok 0)
    else (samples, (Repair.keys ids).bind fun _ => .error (faultAt samples 0))
  | _, .ok items =>
    let (repaired, count) := Repair.run top ids items
    let isKept := (Value.list repaired).equals (.list items)
    (samples, if isKept then count else .error .wrongType)

end Given
end SampledProfile
