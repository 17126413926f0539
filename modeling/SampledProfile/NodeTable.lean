/-
# The flat list of nodes

A profile comes as a flat list of node objects that refer to each other by id.  A `NodeTable` is
such a list together with an index from ids to positions.

* `NodeTable.ofNodes` checks that every entry is an object with an id of its own;
* `NodeTable.fillHits` provides hit counts: if the first node reports none, every node is given
  the number of samples that name it;
* `NodeTable.fillChildren` provides lists of children: if the first node has none, they are made
  from the parents that the nodes name.

The two `fill` operations may stop half way; what they have written by then stays written, so they
give a table in any case and beside it whether they got to the end.

Messages show ids by `Value.text`, however long they are.  An integer of more digits than
`Text.mostDigits` is no id that a file could give, and ids so long that were put into a list of nodes
in another way, which could not be shown, are left out.
-/
import SampledProfile.Value.Arithmetic
import SampledProfile.Value.Key
import SampledProfile.Value.Text

namespace SampledProfile

/-- A flat list of nodes with an index from ids to positions. -/
structure NodeTable (α : Type) where
  nodes : List (Fields α)
  names : List (Key × Nat)

namespace NodeTable

variable {α : Type} [Scalar α]

/-! ## 1. Making a table -/

/-- The fields of the node at a position, none outside. -/
def nodeAt (table : NodeTable α) (position : Nat) : Fields α := (table.nodes[position]?).getD []

/-- Adds a node to the end of a table. -/
def push (table : NodeTable α) (node : Value α) : Except Fault (NodeTable α) := do
  let fields ← node.fields
  let id := fields.get "id"
  if id.isNull then throw (.malformed .nodeWithoutId)
  let key ← id.key
  if (key.lookup table.names).isSome then throw (.malformed (.duplicateId id.text))
  return ⟨table.nodes ++ [fields], table.names ++ [(key, table.nodes.length)]⟩

/-- The table of a list of nodes, each of which has an id of its own. -/
def ofNodes (nodes : List (Value α)) : Except Fault (NodeTable α) :=
  nodes.foldlM push ⟨[], []⟩

/-- A table of nodes of which a later one takes the name of an earlier one with the same id. -/
def ofNamed (nodes : List (Fields α)) : Except Fault (NodeTable α) := do
  let keys ← nodes.mapM fun fields => do (← fields.require "id").key
  return ⟨nodes, (keys.zip (List.range keys.length)).reverse⟩

/-- The entries of the table as values. -/
def toList (table : NodeTable α) : List (Value α) := table.nodes.map .obj

/-! ## 2. Finding and changing nodes -/

/-- The position of the node that something refers to. -/
def find (table : NodeTable α) (id : Value α) (referrer : String) : Except Fault Nat := do
  match (← id.key).lookup table.names with
  | some position => return position
  | none => throw (.malformed (.unknownId id.text referrer))

/-- Sets a field of the node at a position. -/
def set (table : NodeTable α) (position : Nat) (name : String) (value : Value α) : NodeTable α :=
  { table with nodes := table.nodes.modify position (·.set name value) }

/-- How an id is shown as a referrer; see above for ids that are too long to be shown. -/
def referrer (id : Value α) : String := "node " ++ id.text

/-- The positions of the nodes that a list of ids refers to. -/
def findAll (table : NodeTable α) (ids : List (Value α)) (referrer : String) :
    Except Fault (List Nat) :=
  ids.mapM fun id => table.find id referrer

/-! ## 3. Hit counts -/

/-- Counts one more hit for the node at a position. -/
def hit (table : NodeTable α) (position : Nat) : NodeTable α :=
  match ((table.nodeAt position).get "hitCount").number? with
  | some count => table.set position "hitCount" (.num (count + Scalar.ofInt 1))
  | none => table

/-- Counts a hit for every sample, up to the first that names no node. -/
def countHits (table : NodeTable α) : List (Value α) → NodeTable α × Except Fault Unit
  | [] => (table, .ok ())
  | sample :: rest =>
    match table.find sample "samples" with
    | .ok position => countHits (table.hit position) rest
    | .error fault => (table, .error fault)

/-- The table with all hit counts at zero. -/
def clearHits (table : NodeTable α) : NodeTable α :=
  { table with nodes := table.nodes.map (·.set "hitCount" (.int 0)) }

/-- Provides hit counts from the samples if the first node reports none. -/
def fillHits (table : NodeTable α) (samples : Value α) : NodeTable α × Except Fault Unit :=
  match table.nodes with
  | [] => (table, .error .outOfRange)
  | first :: _ =>
    if (first.get "hitCount").number?.isSome then (table, .ok ())
    else if samples.isNull then (table, .error (.malformed .hitsUnknown))
    else
      match samples.items with
      | .ok samples => table.clearHits.countHits samples
      | .error fault => (table.clearHits, .error fault)

/-- The sum of all hit counts, from the first node to the last. -/
def totalHits (table : NodeTable α) : Except Fault α :=
  table.nodes.foldlM
    (fun sum node => do Scalar.add? sum (← ((node.get "hitCount").orElse (.int 0)).number))
    (Scalar.ofInt 0)

/-! ## 4. Children -/

/-- Adds the node at a position to the children of the parent it names. -/
def link (table : NodeTable α) (position : Nat) : Except Fault (NodeTable α) := do
  let node := table.nodeAt position
  match node.get? "parent" with
  | none => throw (.malformed (.linksUnknown (← node.require "id").text))
  | some parent =>
    let id ← node.require "id"
    let above ← table.find parent (referrer id)
    match (table.nodeAt above).get "children" with
    | .null => return table.set above "children" (.list [id])
    | .list children => return table.set above "children" (.list (children ++ [id]))
    | _ => throw .noSuchMember

/-- Links the nodes at some positions, up to the first that cannot be linked. -/
def linkAll (table : NodeTable α) : List Nat → NodeTable α × Except Fault Unit
  | [] => (table, .ok ())
  | position :: rest =>
    match table.link position with
    | .ok table => linkAll table rest
    | .error fault => (table, .error fault)

/-- Provides lists of children from the parents if the first node has none. -/
def fillChildren (table : NodeTable α) : NodeTable α × Except Fault Unit :=
  match table.nodes with
  | [] => (table, .error .outOfRange)
  | first :: rest =>
    if !(first.get "children").isNull then (table, .ok ())
    else (table.set 0 "children" (.list [])).linkAll (List.range' 1 rest.length)

end NodeTable
end SampledProfile
