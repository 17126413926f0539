/-
# Summaries

A summary of a model says how long the profile took, how much is in it, and which functions took the
most time themselves.  Its lines are printed one by one, so that a line that cannot be made leaves
the ones before it standing.

* `Summary.ranked`: the nodes but the root, by self time from the greatest down, and as they were
  where that is equal;
* `Summary.top`: the first of them, or all but some of the last ones where the number is negative;
* `Summary.nodeLine`: the line of one node.
-/
import SampledProfile.Duration
import SampledProfile.Samples.Order
import SampledProfile.Workspace

namespace SampledProfile
namespace Summary

variable {α : Type} [Scalar α]

/-! ## 1. The nodes -/

/-- How many nodes are shown where nothing else is asked for. -/
def usualCount : Int := 20

/-- The nodes but the root by self time, from the greatest down. -/
def ranked (model : Model α) : Except Fault (List (Call α)) := do
  let calls := (model.arena.toList.drop 1).map fun slot => slot.label
  let rising ← Samples.inOrder (fun call => .num call.self)
    (fun a b => .ok (Scalar.lt a.self b.self)) calls.reverse
  return rising.reverse

/-- The first so many items, or all but so many of the last ones. -/
def top {β : Type} (count : Int) (items : List β) : List β :=
  if count < 0 then items.take (items.length - count.natAbs) else items.take count.toNat

/-- The share of the whole duration in percent; zero of no duration. -/
def percent (part duration : α) : Except Fault (Value α) :=
  if Scalar.isZero duration then .ok (.nat 0)
  else do
    return .num (← Scalar.mul? (← Scalar.div? part duration) (Scalar.ofInt 100))

/-- Where the function of a frame begins, lines counted from one. -/
def location (frame : Frame α) : Except Fault String :=
  if frame.url.truthy then do
    return frame.url.text ++ ":" ++ (← (← frame.line.add (.int 1)).checkedText)
  else .ok ""

/-- The name of the function of a frame. -/
def nameOf (frame : Frame α) : String := (frame.functionName.orElse (.str "(anonymous)")).text

/-- The line of a node. -/
def nodeLine (duration : α) (call : Call α) : Except Fault String := do
  let share ← percent call.self duration
  let place ← location call.frame
  let time := Decimal.padLeft 10 (← Scalar.fixed 3 call.self)
  let share := Decimal.padLeft 6 (← Duration.fixedText 2 share)
  return "  " ++ time ++ "ms " ++ share ++ "%  " ++ nameOf call.frame ++ "  " ++ place

/-! ## 2. The lines in front -/

/-- The nodes that stand for the system, in the order in which they are shown. -/
def systemCalls (model : Model α) : List (Call α) :=
  [model.system.program, model.system.idle, model.system.collector].filterMap fun position =>
    (position.bind fun position => model.arena[position]?).map fun slot => slot.label

/-- The line of a node that stands for the system. -/
def systemLine (call : Call α) : Except Fault String := do
  return call.frame.functionName.text ++ ": " ++ (← Scalar.fixed 3 call.self) ++ "ms"

/-- The line that counts what is in a model. -/
def countLine (model : Model α) : String :=
  "samples: " ++ toString (model.samples.getD []).length ++ ", nodes: " ++
    toString model.arena.size ++ ", max depth: " ++ toString model.arena.maxDepth

/-- The line about the span of a model. -/
def spanLine (model : Model α) : Except Fault String := do
  return "start time: " ++ (← Duration.fixedText 3 model.start) ++ "ms, end time: " ++
    (← Duration.fixedText 3 model.finish) ++ "ms"

/-- The line that counts hits and times. -/
def hitLine (model : Model α) : String :=
  "total hit count: " ++ Scalar.text model.totalHits ++ ", timestamps: " ++
    toString model.timestamps.length

/-! ## 3. The summary -/

/-- Prints the lines that are shown when more is asked for. -/
def printDetails (model : Model Number) : Task Unit := do
  Task.printLine (← Task.take (spanLine model))
  Task.printLine (hitLine model)
  for call in systemCalls model do
    Task.printLine (← Task.take (systemLine call))

/-- Prints a summary of the model of the profile at a path, with so many nodes. -/
def print (path : String) (model : Model Number) (count : Int) : Task Unit := do
  let duration ← Task.take (model.finish.sub model.start)
  Task.print (Style.bold.line ("profile: " ++ path))
  Task.printLine ("duration: " ++ (← Task.take (Duration.text (.num duration))))
  Task.printLine (countLine model)
  if model.repaired ≠ 0 then
    Task.print (Style.highlighted.line ("fixed missing samples: " ++ toString model.repaired))
  if (← get).settings.verbose.truthy then printDetails model
  let calls := top count (← Task.take (ranked model))
  Task.print ("\nTop " ++ toString calls.length ++ " by self time:\n")
  for call in calls do
    Task.printLine (← Task.take (nodeLine duration call))

end Summary
end SampledProfile
