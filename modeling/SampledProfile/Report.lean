/-
# Rows for reports

Two tables describe a model.  `Report.nodeRows` has a row for every node but the root, level by
level.  `Report.frameRows` has a row for every frame of a replay, in the order in which the frames
opened: by time, and at one time by depth.
-/
import SampledProfile.Model

namespace SampledProfile
namespace Report

variable {α : Type} [Scalar α]

/-! ## 1. Nodes -/

/-- The row of a node. -/
def nodeRow (arena : Arena (Call α) α) (slot : Slot (Call α) α) : Fields α :=
  let call := slot.label
  [("depth", .nat slot.depth),
    ("node_id", call.id),
    ("parent_id", Value.ofOption (slot.parent.map (Model.idAt arena))),
    ("function_name", call.frame.functionName),
    ("url", call.frame.url),
    ("line_number", call.frame.line),
    ("column_number", call.frame.column),
    ("hit_count", call.hits),
    ("self_time", .num call.self),
    ("total_time", .num slot.total)]

/-- The rows of all nodes but the root, level by level. -/
def nodeRows (model : Model α) : List (Fields α) :=
  model.arena.levelOrder.filterMap fun position =>
    model.arena[position]?.map (nodeRow model.arena)

/-! ## 2. Frames -/

/-- A frame of a replay. -/
structure FrameRow (α : Type) where
  depth : Nat
  node : Nat
  start : α
  duration : α
  self : α

/-- The frame that an event closes. -/
def closedFrame? : Event α → Option (FrameRow α)
  | .opened .. => none
  | .closed depth node start duration self => some ⟨depth, node, start, duration, self⟩

/-- Does the first frame come before the second: by the time they opened, and then by depth? -/
def opensBefore (a b : FrameRow α) : Bool :=
  if Scalar.exact a.start = Scalar.exact b.start then decide (a.depth < b.depth)
  else Scalar.lt a.start b.start

/-- The frames of some events in the order in which they opened. -/
def framesOf (events : List (Event α)) : Except Fault (List (FrameRow α)) :=
  Samples.inOrder (fun frame => .num frame.start) (fun a b => .ok (opensBefore a b))
    (events.filterMap closedFrame?)

/-- The row of a frame. -/
def frameRow (arena : Arena (Call α) α) (frame : FrameRow α) : Fields α :=
  [("depth", .nat frame.depth),
    ("node_id", Model.idAt arena frame.node),
    ("function_name",
      Value.ofOption (arena[frame.node]?.map fun slot => slot.label.frame.functionName)),
    ("begin_time", .num frame.start),
    ("duration", .num frame.duration),
    ("self_time", .num frame.self)]

/-- The rows of all frames of a window. -/
def frameRows (model : Model α) (start stop : Value α) : Except Fault (List (Fields α)) := do
  return (← framesOf (← model.replay start stop)).map (frameRow model.arena)

end Report
end SampledProfile
