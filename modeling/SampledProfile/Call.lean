/-
# Calls: the nodes of a call tree

A `CallRecord` is what one node of a profile says: which function runs, under which id the node is
known, how often a sample hit it, and, as far as they are given, the hits by line and the reason
why the function was not optimised.  A `Call` has its own time besides: its hits times the time
between two samples (`CallRecord.selfTime`).
-/
import SampledProfile.Frame

namespace SampledProfile

/-- What a node of a profile says. -/
structure CallRecord (α : Type) where
  frame : Frame α
  id : Value α
  /-- How often a sample hit the node itself. -/
  hits : Value α
  /-- The hits by line, as given. -/
  ticks : Value α
  /-- The reason against optimising the function, `null` if there is none. -/
  deoptReason : Value α

/-- One node of a call tree. -/
structure Call (α : Type) extends CallRecord α where
  /-- The time spent in the node itself. -/
  self : α

namespace CallRecord

variable {α : Type} [Scalar α]

/-- What stands for the absence of a reason. -/
def noReason : String := "no reason"

/-- A reason as given; what stands for its absence is no reason. -/
def reasonOf (given : Value α) : Value α :=
  if given.truthy && !given.equals (.str noReason) then given else .null

/-- What a node says. -/
def ofFields (node : Fields α) : Except Fault (CallRecord α) := do
  let frame ← Frame.ofFields node
  let id ← node.require "id"
  return {
    frame := frame
    id := id
    hits := (node.get "hitCount").orElse (.int 0)
    ticks := node.get "positionTicks"
    deoptReason := reasonOf (node.get "deoptReason") }

/-- The time spent in the node itself when samples are so far apart. -/
def selfTime (record : CallRecord α) (sampleTime : Value α) : Except Fault (Value α) :=
  record.hits.mul sampleTime

end CallRecord

namespace Call

variable {α : Type} [Scalar α]

/-- The call that a node reports when samples are so far apart. -/
def ofFields (sampleTime : α) (node : Fields α) : Except Fault (Call α) := do
  let record ← CallRecord.ofFields node
  return { record with self := ← (← record.selfTime (.num sampleTime)).number }

/-- The call with some more time spent in it. -/
def absorb (call : Call α) (time : α) : Call α := { call with self := call.self + time }

/-- The text by which a node of a given kind is shown. -/
def label (kind : String) (id functionName : Value α) : String :=
  "<" ++ kind ++ " id=" ++ id.text ++ " " ++ Frame.shownName functionName ++ ">"

end Call
end SampledProfile
