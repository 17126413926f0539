/-
# The model of a profile

A `Model` is what a profile says, put in order: the call tree as an arena, and the stream of
samples with their times.

`Model.load` takes a recording through all stages: the tree (`Contraction.ofNodes`), its arena
(`Tree.arrange`), the samples in order (`Samples.sort`), their times (`Timeline.ofSamples`) and
the repair of missed ones (`Repair.run`).  What cannot be loaded gives a fault and no model.

Of a model one can ask for the node of an id or of a sample, and for a replay of its samples
(`Model.replay`), which may be restricted to a window of time.
-/
import SampledProfile.Contraction
import SampledProfile.Recording
import SampledProfile.Replay
import SampledProfile.Samples.Order
import SampledProfile.Samples.Repair
import SampledProfile.Samples.Timeline

namespace SampledProfile

/-- The positions of the nodes that stand for the system itself. -/
structure SystemNodes where
  collector : Option Nat
  program : Option Nat
  idle : Option Nat
  deriving DecidableEq

/-- A loaded profile. -/
structure Model (α : Type) where
  arena : Arena (Call α) α
  /-- The positions of the nodes by id. -/
  names : List (Key × Nat)
  system : SystemNodes
  totalHits : α
  /-- The start and the end of the profile in milliseconds. -/
  start : Value α
  finish : Value α
  /-- The times of the samples in milliseconds and the end of the last one. -/
  timestamps : List α
  /-- The ids of the sampled nodes; none if the profile has no samples. -/
  samples : Option (List (Value α))
  /-- How many missed samples were replaced. -/
  repaired : Nat
  lines : Value α

namespace Model

variable {α : Type} [Scalar α]

/-! ## 1. Nodes of the system -/

/-- The names of the functions that stand for the system. -/
def collectorName : String := "(garbage collector)"

def programName : String := "(program)"

def idleName : String := "(idle)"

/-- Are all three nodes known? -/
def SystemNodes.complete (nodes : SystemNodes) : Bool :=
  nodes.collector.isSome && nodes.program.isSome && nodes.idle.isSome

/-- Notes a node of a name, if it is one of the system and not all are known yet. -/
def noteSystem (nodes : SystemNodes) (position : Nat) (name : Value α) : SystemNodes :=
  if SystemNodes.complete nodes then nodes
  else if name.equals (.str collectorName) then { nodes with collector := some position }
  else if name.equals (.str programName) then { nodes with program := some position }
  else if name.equals (.str idleName) then { nodes with idle := some position }
  else nodes

/-- The nodes of the system among the children of the root. -/
def systemNodes (arena : Arena (Call α) α) : SystemNodes :=
  (arena.children 0).foldl
    (fun nodes position =>
      match arena[position]? with
      | some slot => noteSystem nodes position slot.label.frame.functionName
      | none => nodes)
    ⟨none, none, none⟩

/-! ## 2. Ids -/

/-- The positions of an arena by id. -/
def namesOf (arena : Arena (Call α) α) : Except Fault (List (Key × Nat)) :=
  arena.toList.zipIdx.mapM fun entry => do return (← entry.1.label.id.key, entry.2)

/-- The id of the node at a position. -/
def idAt (arena : Arena (Call α) α) (position : Nat) : Value α :=
  (arena[position]?.map fun slot => slot.label.id).getD .null

/-- The position of the node with an id, if there is one. -/
def positionOf (names : List (Key × Nat)) (id : Value α) : Except Fault (Option Nat) := do
  return (← id.key).lookup names

/-- The position of the node with an id, which has to be there. -/
def requirePosition (names : List (Key × Nat)) (id : Value α) : Except Fault Nat := do
  match ← positionOf names id with
  | some position => return position
  | none => throw .noSuchMember

/-! ## 3. Loading -/

/-- The id of a node of the system, minus one if there is none. -/
def systemId (arena : Arena (Call α) α) (position : Option Nat) : Value α :=
  match position with
  | some position => idAt arena position
  | none => .int (-1)

/-- The top-level node of an id. -/
def topOf (arena : Arena (Call α) α) (names : List (Key × Nat)) (id : Value α) :
    Except Fault Nat := do
  return Arena.topFrom arena.parent? arena.size (← requirePosition names id)

/-- The samples with missed ones replaced, and how many were. -/
def repair (arena : Arena (Call α) α) (names : List (Key × Nat)) (system : SystemNodes)
    (samples : List (Value α)) : Except Fault (List (Value α) × Nat) :=
  match system.program with
  | none => .ok (samples, 0)
  | some program =>
    let ids := ⟨idAt arena program, systemId arena system.collector, systemId arena system.idle⟩
    let (samples, count) := Repair.run (topOf arena names) ids samples
    count.map fun count => (samples, count)

/-- The model of a recording. -/
def ofRecording (recording : Recording α) (keepNatives : Bool) : Except Fault (Model α) := do
  let samples := Value.ofOption (recording.samples.map .list)
  let (_, result) := Contraction.ofNodes (recording.nodes.map .obj) samples
    recording.start recording.finish keepNatives
  let contraction ← result
  let arena := contraction.tree.arrange Call.self
  let names ← namesOf arena
  let system := systemNodes arena
  match contraction.samples with
  | none =>
    return {
      arena, names, system
      totalHits := contraction.totalHits
      start := recording.start
      finish := recording.finish
      timestamps := []
      samples := none
      repaired := 0
      lines := recording.lines }
  | some samples =>
    let (samples, times) ←
      match recording.timestamps with
      | some times => do
        let (samples, times) ← Samples.sort samples times
        pure (samples, some times)
      | none => .ok (samples, none)
    let timeline ← Timeline.ofSamples samples.length times recording.start recording.finish
    let (samples, repaired) ← repair arena names system samples
    return {
      arena, names, system
      totalHits := contraction.totalHits
      start := timeline.start
      finish := timeline.finish
      timestamps := timeline.timestamps
      samples := some samples
      repaired
      lines := recording.lines }

/-- The model of a profile. -/
def load (profile : Value α) (keepNatives : Bool) : Except Fault (Model α) := do
  ofRecording (← Recording.ofProfile profile) keepNatives

/-! ## 4. Questions -/

/-- The node with an id. -/
def byId (model : Model α) (id : Value α) : Except Fault (Option Nat) :=
  positionOf model.names id

/-- The node of the sample at an index; an index outside has none. -/
def byIndex (model : Model α) (index : Value α) : Except Fault (Option Nat) :=
  match model.samples with
  | none => .ok none
  | some [] => .ok none
  | some samples => do
    let x ← index.number
    if Scalar.ge x (Scalar.ofInt 0) && Scalar.lt x (Scalar.ofInt samples.length) then
      match index.integer? with
      | some position => positionOf model.names (samples.getD position.toNat .null)
      | none => throw .wrongType
    else return none

/-! ## 5. Replays -/

/-- The first of the positions from `low` on and below `high` at which `isBefore` fails, and `high`
if there is none.  It has to hold up to some position and fail from there on; `fuel` bounds the
number of halvings. -/
def bisect (isBefore : Nat → Bool) : Nat → Nat → Nat → Nat
  | 0, low, _ => low
  | fuel + 1, low, high =>
    if low < high then
      let middle := (low + high) / 2
      if isBefore middle then bisect isBefore fuel (middle + 1) high
      else bisect isBefore fuel low middle
    else low

/-- The position of the first time that is not before another one. -/
def firstFrom (times : List α) (time : α) : Nat :=
  let times := times.toArray
  bisect (fun i => (times[i]?.map (Scalar.lt · time)).getD false) times.size 0 times.size

/-- The value at which a window stops; a window without a stop goes on to infinity. -/
def stopOf (stop : Value α) : Except Fault Magnitude :=
  if stop.isNull then .ok (.infinite false) else stop.number.map Scalar.exact

/-- The samples of a window with their times, and the time at which the last one ends. -/
def window (model : Model α) (samples : List (Value α)) (start stop : Value α) :
    Except Fault (List (Value α × α) × α) := do
  let first ←
    if start.isNull then pure 0
    else do pure (firstFrom model.timestamps (← start.number))
  let rest := (samples.zip model.timestamps).drop first
  let stream ←
    if rest.isEmpty then pure []
    else do
      let stop ← stopOf stop
      pure (rest.takeWhile fun sample => !(Scalar.exact sample.2).ge stop)
  let last := model.timestamps[first + stream.length]?
  return (stream, (last.orElse fun _ => model.finish.number?).getD 0)

/-- The size that the buffers of a replay need: a level for every frame of the deepest stack, one
for a garbage collection on top, and one below all frames. -/
def scratchSize (model : Model α) : Nat := model.arena.maxDepth + 3

/-- Does the id of the node at a position equal itself?  One without a value does not. -/
def isAlike (arena : Arena (Call α) α) (position : Nat) : Bool :=
  (idAt arena position).equals (idAt arena position)

/-- Replays the samples of a window with given buffers. -/
def replayWith (model : Model α) (scratch : Scratch α) (start stop : Value α) :
    Except Fault (Scratch α × List (Event α)) :=
  match model.samples with
  | none => .ok (scratch, [])
  | some [] => .ok (scratch, [])
  | some samples => do
    let (stream, last) ← model.window samples start stop
    let stream ← stream.mapM fun sample => do
      return (← requirePosition model.names sample.1, sample.2)
    Replay.run model.arena model.system.collector (isAlike model.arena) stream last scratch

/-- The events of a replay of the samples of a window. -/
def replay (model : Model α) (start stop : Value α) : Except Fault (List (Event α)) :=
  (model.replayWith (Scratch.blank model.scratchSize) start stop).map Prod.snd

end Model
end SampledProfile
