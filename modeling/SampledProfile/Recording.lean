/-
# Recordings: the two formats of a profile

A profile is recorded in one of two formats (`Format`):

* the LEGACY format has a `head`, a node object in which the child nodes are nested, start and end
  in seconds, and timestamps in microseconds;
* the CURRENT format has a flat list of `nodes` that refer to their children by id, start and end
  in microseconds, and the timestamps as differences.

`Recording.ofProfile` reads either into one shape: a flat list of nodes, start and end in
milliseconds, and timestamps in microseconds.  `Recording.flatten` is the step from nested nodes to
flat ones, each before those below it; `Recording.accumulate` the one from differences to times.
-/
import SampledProfile.Value.Arithmetic
import SampledProfile.Value.Key

namespace SampledProfile

/-- The format of a profile. -/
inductive Format where
  | legacy
  | current
  deriving DecidableEq

/-- The name of a format in messages. -/
def Format.name : Format → String
  | .legacy => "LegacyProfile"
  | .current => "CurrentProfile"

/-- A profile as recorded, in one shape for both formats. -/
structure Recording (α : Type) where
  nodes : List (Fields α)
  /-- The start in milliseconds. -/
  start : Value α
  /-- The end in milliseconds. -/
  finish : Value α
  /-- The times of the samples in microseconds, if there are any. -/
  timestamps : Option (List (Value α))
  /-- The ids of the sampled nodes, if there are any. -/
  samples : Option (List (Value α))
  lines : Value α

namespace Recording

variable {α : Type} [Scalar α]

/-! ## 1. Nested nodes -/

/-- The id of a nested node. -/
def idOf : Value α → Except Fault (Value α)
  | .obj fields => Fields.require fields "id"
  | _ => .error .wrongType

/-- The ids of the children nested in a node. -/
def childIds (node : Fields α) : Except Fault (List (Value α)) := do
  (← ((node.get "children").orElse (.list [])).items).mapM idOf

mutual

/-- The nodes nested in a node as a flat list: the node itself, then what is below it.  The
children become their ids. -/
def flatten : Value α → Except Fault (List (Fields α))
  | .obj node => do
    let ids ← childIds node
    return Fields.set node "children" (.list ids) :: (← flattenBelow node)
  | _ => .error .noSuchMember

/-- The nodes below a node with such fields. -/
def flattenBelow : List (String × Value α) → Except Fault (List (Fields α))
  | [] => .ok []
  | (name, value) :: rest =>
    if name = "children" then
      match value with
      | .list children => flattenAll children
      | _ => .ok []
    else flattenBelow rest

/-- The nodes nested in some nodes, one after the other. -/
def flattenAll : List (Value α) → Except Fault (List (Fields α))
  | [] => .ok []
  | node :: rest => do
    let first ← flatten node
    return first ++ (← flattenAll rest)

end

/-! ## 2. Flat nodes -/

/-- Why an entry of a list cannot be taken as a name and a value; `none` if it can. -/
def pairFault (entry : Value α) : Option Fault :=
  match entry.items with
  | .error fault => some fault
  | .ok [name, _] =>
    match name.key with
    | .ok _ => none
    | .error fault => some fault
  | .ok _ => some .badValue

/-- A node as an object of its own.  Something else is refused: by its entries if it can be gone
through, and because it has no members if it could be taken as an object. -/
def asObject : Value α → Except Fault (Fields α)
  | .obj fields => .ok fields
  | v =>
    match v.items with
    | .error fault => .error fault
    | .ok entries => .error ((entries.findSome? pairFault).getD .noSuchMember)

/-- A node with its children as a list of their own. -/
def copyNode (v : Value α) : Except Fault (Fields α) := do
  let node ← asObject v
  let children := node.get "children"
  if children.isNull then return node
  else return node.set "children" (.list (← children.items))

/-! ## 3. Times -/

/-- The running sums of differences. -/
def runningSums : Value α → List (Value α) → Except Fault (List (Value α))
  | _, [] => .ok []
  | last, delta :: rest => do
    let next ← last.add delta
    return next :: (← runningSums next rest)

/-- A list extended by the items of each of some values. -/
def extendAll : List (Value α) → List (Value α) → Except Fault (List (Value α))
  | all, [] => .ok all
  | all, value :: rest => do extendAll (all ++ (← value.items)) rest

/-- The times that a start and differences give.  A list as start takes up the items of all
differences, and every time is that list in the end. -/
def accumulate (start deltas : Value α) : Except Fault (List (Value α)) :=
  if !deltas.truthy then .ok []
  else do
    let deltas ← deltas.items
    match start with
    | .list all =>
      let all ← extendAll all deltas
      return List.replicate deltas.length (.list all)
    | start => runningSums start deltas

/-! ## 4. Both formats -/

/-- The items of a value that may be absent. -/
def itemsIfGiven (v : Value α) : Except Fault (Option (List (Value α))) :=
  if v.isNull then .ok none else v.items.map some

/-- A list of times, none if it is empty. -/
def timesIfAny (times : List (Value α)) : Option (List (Value α)) :=
  if times.isEmpty then none else some times

/-- The format of a profile. -/
def formatOf (profile : Value α) : Except Fault Format :=
  match profile with
  | .obj fields =>
    if (Fields.get fields "head").truthy then .ok .legacy
    else if (Fields.get fields "nodes").truthy then .ok .current
    else .error (.malformed .neitherHeadNorNodes)
  | _ => .error (.malformed .notAnObject)

/-- Reads the legacy format. -/
def ofLegacy (profile : Fields α) : Except Fault (Recording α) := do
  let timestamps := profile.get "timestamps"
  let timestamps ← if timestamps.truthy then timestamps.items.map some else .ok none
  let samples ← itemsIfGiven (profile.get "samples")
  let nodes ← flatten (profile.get "head")
  let start ← (profile.getD "startTime" (.int 0)).mul (.int 1000)
  let finish ← (profile.getD "endTime" (.int 0)).mul (.int 1000)
  return ⟨nodes, start, finish, timestamps, samples, profile.get "lines"⟩

/-- Reads the current format. -/
def ofCurrent (profile : Fields α) : Except Fault (Recording α) := do
  let start := profile.getD "startTime" (.int 0)
  let timestamps ← accumulate start (profile.get "timeDeltas")
  let samples ← itemsIfGiven (profile.get "samples")
  let nodes ← (← (profile.get "nodes").items).mapM copyNode
  let startMs ← start.div (.int 1000)
  let finishMs ← (profile.getD "endTime" (.int 0)).div (.int 1000)
  return ⟨nodes, .num startMs, .num finishMs, timesIfAny timestamps, samples, profile.get "lines"⟩

/-- Reads a profile of either format. -/
def ofProfile (profile : Value α) : Except Fault (Recording α) := do
  let fields := match profile with
    | .obj fields => fields
    | _ => []
  match ← formatOf profile with
  | .legacy => ofLegacy fields
  | .current => ofCurrent fields

end Recording
end SampledProfile
