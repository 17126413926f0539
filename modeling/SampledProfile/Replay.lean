/-
# Replaying samples as nested intervals

Samples say which node of the call tree was running at a time.  A replay turns them into events:
at every sample the frames that are no longer on the stack close, innermost first, and the new ones
open, outermost first.

* `Arena.move` compares two nodes of the tree: which frames have to close and which to open to get
  from the stack of the one to the stack of the other;
* a garbage collection has no stack of its own: its frame opens on top of the stack that was there
  before, and closes again before anything else happens;
* a sample of the node that ran before changes nothing, unless the node is one that differs from
  itself (`alike` fails for it): then another collection starts;
* `Stack` keeps, for every open frame, when it opened and how much of its time belongs to frames
  inside it.  Both are kept in buffers (`Scratch`) that outlive a replay; an access outside them is
  the fault `outOfRange`.

`Replay.step` is one sample, `Replay.finish` closes what is open at the end, and `Replay.run` is
both over a stream of samples.
-/
import SampledProfile.Tree

namespace SampledProfile

/-! ## 1. Ways through the tree -/

namespace Arena

variable {β α : Type}

/-- The position so many steps above another, or the root where there are fewer. -/
def above (arena : Arena β α) : Nat → Nat → Nat
  | 0, position => position
  | steps + 1, position =>
    match arena.parent? position with
    | some parent => above arena steps parent
    | none => position

/-- A position and those above it, so many in all. -/
def upwards (arena : Arena β α) : Nat → Nat → List Nat
  | 0, _ => []
  | count + 1, position =>
    position ::
      match arena.parent? position with
      | some parent => upwards arena count parent
      | none => []

/-- Goes up from two positions of equal depth until they meet, and gives the positions passed on
either way; `fuel` bounds the number of steps. -/
def meet (arena : Arena β α) : Nat → Nat → Nat → List Nat × List Nat
  | 0, _, _ => ([], [])
  | fuel + 1, old, new =>
    if old = new then ([], [])
    else
      match arena.parent? old, arena.parent? new with
      | some old', some new' =>
        let (olds, news) := meet arena fuel old' new'
        (old :: olds, new :: news)
      | _, _ => ([], [])

/-- The frames to close, innermost first, and to open, outermost first, to get from the stack of
one node to that of another. -/
def move (arena : Arena β α) (old new : Nat) : List Nat × List Nat :=
  let fall := arena.depth old - arena.depth new
  let rise := arena.depth new - arena.depth old
  let (olds, news) :=
    arena.meet (arena.depth old) (arena.above fall old) (arena.above rise new)
  (arena.upwards fall old ++ olds, (arena.upwards rise new ++ news).reverse)

end Arena

/-! ## 2. The stack of open frames -/

/-- What a replay reports.  Nodes are given by their positions. -/
inductive Event (α : Type) where
  /-- A frame opens on so many others. -/
  | opened (depth node : Nat) (time : α)
  /-- A frame closes: when it opened, how long it was open, and how much of that was its own. -/
  | closed (depth node : Nat) (start duration self : α)

/-- The buffers of a stack. -/
structure Scratch (α : Type) where
  /-- When the frame at a level opened. -/
  starts : Array α
  /-- How long the frames were open that lay directly on the frame at a level. -/
  inner : Array α

/-- The open frames: buffers and the level of the innermost.  Level zero is below all frames. -/
structure Stack (α : Type) extends Scratch α where
  top : Nat

/-- Buffers of a given size, all zero. -/
def Scratch.blank {α : Type} [Zero α] (size : Nat) : Scratch α :=
  ⟨Array.replicate size 0, Array.replicate size 0⟩

namespace Stack

variable {α : Type} [Scalar α]

/-- Opens a frame at a time. -/
def push (stack : Stack α) (time : α) : Except Fault (Stack α) :=
  let level := stack.top + 1
  if level < stack.starts.size && level < stack.inner.size then
    .ok ⟨⟨stack.starts.setIfInBounds level time, stack.inner.setIfInBounds level 0⟩, level⟩
  else .error .outOfRange

/-- Closes the innermost frame at a time, and gives when it opened, how long it was open, and how
much of that was its own. -/
def pop (stack : Stack α) (time : α) : Except Fault (Stack α × α × α × α) :=
  match stack.top with
  | 0 => .error .outOfRange
  | below + 1 =>
    match stack.starts[below + 1]?, stack.inner[below + 1]?, stack.inner[below]? with
    | some start, some nested, some around =>
      let duration := time - start
      .ok (⟨⟨stack.starts, stack.inner.setIfInBounds below (around + duration)⟩, below⟩,
        start, duration, duration - nested)
    | _, _, _ => .error .outOfRange

/-- Closes the innermost frame, which is one of a node at some depth. -/
def close (stack : Stack α) (depth node : Nat) (time : α) : Except Fault (Stack α × Event α) := do
  let (stack, start, duration, self) ← stack.pop time
  return (stack, .closed depth node start duration self)

end Stack

/-! ## 3. The replay -/

/-- Where a replay stands. -/
structure ReplayState (α : Type) where
  stack : Stack α
  /-- The node of the last sample. -/
  previous : Nat
  /-- During a garbage collection, the node it interrupts. -/
  interrupted : Option Nat

namespace Replay

variable {β α : Type} [Scalar α]

/-- Closes the frames of some nodes, each of which lies one below its depth in the tree. -/
def closeAll (arena : Arena β α) (time : α) :
    List Nat → Stack α → Except Fault (Stack α × List (Event α))
  | [], stack => .ok (stack, [])
  | node :: rest, stack => do
    let (stack, event) ← stack.close (arena.depth node - 1) node time
    let (stack, events) ← closeAll arena time rest stack
    return (stack, event :: events)

/-- Opens the frames of some nodes, each of which lies one below its depth in the tree. -/
def openAll (arena : Arena β α) (time : α) :
    List Nat → Stack α → Except Fault (Stack α × List (Event α))
  | [], stack => .ok (stack, [])
  | node :: rest, stack => do
    let stack ← stack.push time
    let (stack, events) ← openAll arena time rest stack
    return (stack, .opened (arena.depth node - 1) node time :: events)

/-- Ends a garbage collection, if one is going on. -/
def resume (arena : Arena β α) (collector : Option Nat) (time : α) (state : ReplayState α) :
    Except Fault (ReplayState α × List (Event α)) :=
  match state.interrupted with
  | some node =>
    if collector = some state.previous then do
      let (stack, event) ← state.stack.close (arena.depth node) state.previous time
      return (⟨stack, node, none⟩, [event])
    else .ok (state, [])
  | none => .ok (state, [])

/-- One sample: the node that was running at a time. -/
def step (arena : Arena β α) (collector : Option Nat) (alike : Nat → Bool) (sample : Nat × α)
    (state : ReplayState α) : Except Fault (ReplayState α × List (Event α)) :=
  let (node, time) := sample
  if node = state.previous && alike node then .ok (state, [])
  else if collector = some node then do
    let stack ← state.stack.push time
    return (⟨stack, node, some state.previous⟩, [.opened (arena.depth state.previous) node time])
  else do
    let (state, ended) ← resume arena collector time state
    let (closing, opening) := arena.move state.previous node
    let (stack, closed) ← closeAll arena time closing state.stack
    let (stack, opened) ← openAll arena time opening stack
    return (⟨stack, node, state.interrupted⟩, ended ++ closed ++ opened)

/-- The end: closes all frames that are open. -/
def finish (arena : Arena β α) (collector : Option Nat) (time : α) (state : ReplayState α) :
    Except Fault (Stack α × List (Event α)) := do
  let (state, ended) ← resume arena collector time state
  let open_ := arena.upwards (arena.depth state.previous) state.previous
  let (stack, closed) ← closeAll arena time open_ state.stack
  return (stack, ended ++ closed)

/-- All samples and then the end. -/
def runFrom (arena : Arena β α) (collector : Option Nat) (alike : Nat → Bool) (stop : α) :
    List (Nat × α) → ReplayState α → Except Fault (Scratch α × List (Event α))
  | [], state => do
    let (stack, events) ← finish arena collector stop state
    return (stack.toScratch, events)
  | sample :: rest, state => do
    let (state, first) ← step arena collector alike sample state
    let (scratch, others) ← runFrom arena collector alike stop rest state
    return (scratch, first ++ others)

/-- Replays a stream of samples that ends at a time, with the given buffers: the buffers as they
are left, and the events. -/
def run (arena : Arena β α) (collector : Option Nat) (alike : Nat → Bool)
    (stream : List (Nat × α)) (stop : α) (scratch : Scratch α) :
    Except Fault (Scratch α × List (Event α)) :=
  runFrom arena collector alike stop stream ⟨⟨scratch, 0⟩, 0, none⟩

end Replay
end SampledProfile
