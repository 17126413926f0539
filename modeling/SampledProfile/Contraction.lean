/-
# From the flat list to the call tree

The call tree of a profile is the tree that its flat list of nodes describes, with the native
functions contracted: unless they are to be kept, a native node other than the root is dropped,
its children become children of the nearest kept node above it, and so do its own time and the
samples that name it.

* `Contraction.walk` goes from a node to its children, the last child first, and builds the tree
  on the way.  Its `Trail` holds for every node met the id of the kept node that stands for it, so
  a node met twice is recognised, and samples can be redirected afterwards;
* `Contraction.ofNodes` is the whole way: check the ids, provide hit counts and children, walk,
  check that all nodes were met, redirect the samples.  It gives the list of nodes as it was left
  by the steps that fill in fields, and beside it the result.
-/
import SampledProfile.Call
import SampledProfile.NodeTable
import SampledProfile.Tree

namespace SampledProfile

/-- A call tree. -/
abbrev CallTree (α : Type) := Tree (Call α)

/-- For every node met, the id of the kept node that stands for it. -/
abbrev Trail (α : Type) := List (Key × Value α)

/-- The call tree of a profile, with what belongs to it. -/
structure Contraction (α : Type) where
  tree : CallTree α
  totalHits : α
  /-- The samples, each with the id of a kept node; none if the profile has none. -/
  samples : Option (List (Value α))

namespace Contraction

variable {α : Type} [Scalar α]

/-! ## 1. The walk -/

/-- The positions of the children that a node lists. -/
def childPositions (table : NodeTable α) (node : Fields α) (id : Value α) :
    Except Fault (List Nat) := do
  let ids ← ((node.get "children").orElse (.list [])).items
  table.findAll ids (NodeTable.referrer id)

/-- Walks over the nodes at some positions and all below them, and adds what is kept to the tree
of the node that owns them.  Every node met takes one unit of fuel. -/
def walk (table : NodeTable α) (sampleTime : α) (keepNatives : Bool) :
    Nat → List Nat → CallTree α → Trail α → Except Fault (CallTree α × Trail α)
  | _, [], owner, trail => .ok (owner, trail)
  | 0, _ :: _, owner, trail => .ok (owner, trail)
  | fuel + 1, position :: rest, owner, trail => do
    let node := table.nodeAt position
    let id := node.get "id"
    let key ← id.key
    if (key.lookup trail).isSome then throw (.malformed (.reachableTwice id.text))
    let call ← Call.ofFields sampleTime node
    let elided ← if keepNatives then .ok false else Frame.isNative node
    let below ← childPositions table node id
    if elided then
      walk table sampleTime keepNatives fuel (below.reverse ++ rest)
        (owner.relabel (·.absorb call.self)) ((key, owner.label.id) :: trail)
    else
      let (tree, trail) ← walk table sampleTime keepNatives fuel below.reverse
        (.leaf call) ((key, call.id) :: trail)
      walk table sampleTime keepNatives fuel rest (owner.attach tree) trail

/-- The tree from the first node on, with the trail of the walk. -/
def fromRoot (table : NodeTable α) (sampleTime : α) (keepNatives : Bool) :
    Except Fault (CallTree α × Trail α) := do
  let root := table.nodeAt 0
  let children := root.get "children"
  if children.isNull then throw (.malformed .rootWithoutChildren)
  let id ← root.require "id"
  let key ← id.key
  let call ← Call.ofFields sampleTime root
  let below ← table.findAll (← children.items) (NodeTable.referrer id)
  walk table sampleTime keepNatives table.nodes.length below.reverse (.leaf call) [(key, id)]

/-! ## 2. The whole way -/

/-- A sample with the id of the kept node that stands for the one it names. -/
def redirectSample (trail : Trail α) (sample : Value α) : Except Fault (Value α) := do
  match (← sample.key).lookup trail with
  | some id => return id
  | none => throw (.malformed (.unknownId sample.text "samples"))

/-- The samples with the ids of kept nodes. -/
def redirectSamples (trail : Trail α) (samples : Value α) :
    Except Fault (Option (List (Value α))) :=
  if samples.isNull then .ok none
  else do return some (← (← samples.items).mapM (redirectSample trail))

/-- The time between two samples: the span of the profile shared out among all hits. -/
def sampleTime (totalHits : α) (start finish : Value α) : Except Fault α :=
  if Scalar.isZero totalHits then .ok 0 else do Scalar.div? (← finish.sub start) totalHits

/-- The result for a table whose hit counts and children are provided. -/
def ofTable (table : NodeTable α) (samples start finish : Value α) (keepNatives : Bool) :
    Except Fault (Contraction α) := do
  let totalHits ← table.totalHits
  let (tree, trail) ← fromRoot table (← sampleTime totalHits start finish) keepNatives
  if trail.length ≠ table.nodes.length then
    throw (.malformed (.unreachable (table.nodes.length - trail.length)))
  return ⟨tree, totalHits, ← redirectSamples trail samples⟩

/-- The call tree that a list of nodes describes, beside the list with its fields filled in. -/
def ofNodes (nodes : List (Value α)) (samples start finish : Value α) (keepNatives : Bool) :
    List (Value α) × Except Fault (Contraction α) :=
  if nodes.isEmpty then (nodes, .error (.malformed .noNodes))
  else
    match NodeTable.ofNodes nodes with
    | .error fault => (nodes, .error fault)
    | .ok table =>
      match table.fillHits samples with
      | (table, .error fault) => (table.toList, .error fault)
      | (table, .ok ()) =>
        match table.fillChildren with
        | (table, .error fault) => (table.toList, .error fault)
        | (table, .ok ()) => (table.toList, ofTable table samples start finish keepNatives)

/-- The call tree that a value in the place of a list of nodes describes; only a list can. -/
def ofValue (nodes samples start finish : Value α) (keepNatives : Bool) :
    Value α × Except Fault (Contraction α) :=
  match nodes with
  | .list nodes =>
    let (nodes, result) := ofNodes nodes samples start finish keepNatives
    (.list nodes, result)
  | nodes =>
    (nodes,
      if nodes.truthy then nodes.items.bind fun _ => .error .noSuchMember
      else .error (.malformed .noNodes))

end Contraction
end SampledProfile
