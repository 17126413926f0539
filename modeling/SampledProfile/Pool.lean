/-
# A pool of nodes and the trees in it

The nodes of a pool refer to their children by position, and each remembers its place in the last
tree that it was part of: its position in the arena, its depth, its parent and its total.  Any node
can be made the root of a tree, one after the other, and these trees may overlap.

`Pool.rootAt` makes a node the root.  It goes through the tree with a stack of nodes that have
children (`Round.traverse`): the node on top meets its children side by side, and each gets its place
(`Round.meet`).  Totals are added up afterwards from the end, each into its parent's (`Pool.addUp`).
Nodes outside the tree keep their places.

A node may be met more than once.  There is one place for it all the same: the last meeting decides,
and where totals are added up it is added as often as it was met.

What a node has as its own share is a value.  Values that cannot be added refuse the whole.  A list
that takes up others is still the same list, so that the share grows with the total.
-/
import SampledProfile.Tree
import SampledProfile.Value.Arithmetic

namespace SampledProfile

/-- The place of a node in the last tree it was part of. -/
structure TreePlace (α : Type) where
  /-- The position in the arena, none before the first tree. -/
  index : Option Nat
  depth : Nat
  /-- The parent's position in the pool. -/
  parent : Option Nat
  total : Value α

/-- A node of a pool. -/
structure PoolNode (α : Type) where
  self : Value α
  /-- The positions of the children in the pool. -/
  children : List Nat
  place : TreePlace α

/-- Nodes that refer to each other by position. -/
abbrev Pool (α : Type) := Array (PoolNode α)

namespace Pool

variable {α : Type} [Scalar α]

/-- A node that was part of no tree yet. -/
def fresh (self : Value α) (children : List Nat) : PoolNode α :=
  ⟨self, children, ⟨none, 0, none, .num 0⟩⟩

/-- The tree of positions below a node, at most `fuel` levels of it. -/
def subtree (pool : Pool α) : Nat → Nat → Tree Nat
  | 0, position => .leaf position
  | fuel + 1, position =>
    .node position (((pool[position]?.map PoolNode.children).getD []).map (subtree pool fuel))

/-- The tree of positions below a node.  A finite tree in a pool has no more levels than the pool
has nodes. -/
def treeFrom (pool : Pool α) (root : Nat) : Tree Nat := subtree pool pool.size root

/-- The depth of the node at a position. -/
def depth (pool : Pool α) (position : Nat) : Nat :=
  (pool[position]?.map fun node => node.place.depth).getD 0

/-- The total of the node at a position. -/
def total (pool : Pool α) (position : Nat) : Value α :=
  (pool[position]?.map fun node => node.place.total).getD .null

/-- The pool with another place for the node at a position. -/
def put (pool : Pool α) (position : Nat) (change : TreePlace α → TreePlace α) : Pool α :=
  pool.modify position fun node => { node with place := change node.place }

end Pool

/-! ## 1. Places -/

/-- A round through a tree: the pool with the places given so far, the positions of the nodes met,
in order, and the greatest depth. -/
structure Round (α : Type) where
  pool : Pool α
  met : Array Nat
  deepest : Nat

namespace Round

variable {α : Type} [Scalar α]

/-- Meets the root. -/
def start (pool : Pool α) (root : Nat) : Round α :=
  ⟨pool.put root fun place => { place with index := some 0, depth := 0, parent := none },
    #[root], 0⟩

/-- Meets a node below its parent. -/
def meet (parent depth : Nat) (round : Round α) (child : Tree Nat) : Round α :=
  let position := child.label
  ⟨round.pool.put position fun place =>
      { place with index := some round.met.size, depth, parent := some parent },
    round.met.push position, max round.deepest depth⟩

/-- Meets the children of a node, one after the other. -/
def meetChildren (node : Tree Nat) (round : Round α) : Round α :=
  node.children.foldl (meet node.label (round.pool.depth node.label + 1)) round

/-- Those of some nodes that have children, the last one on top. -/
def waiting (nodes : List (Tree Nat)) : List (Tree Nat) :=
  (nodes.filter fun node => !node.children.isEmpty).reverse

theorem length_flattenAll_waiting (nodes stack : List (Tree Nat)) :
    (Tree.flattenAll (waiting nodes ++ stack)).length ≤
      (Tree.flattenAll nodes).length + (Tree.flattenAll stack).length := by
  induction nodes generalizing stack with
  | nil => simp [waiting, Tree.flattenAll]
  | cons node rest ih =>
    have hrest := ih (node :: stack)
    have hskip := ih stack
    simp only [waiting, Tree.flattenAll, List.length_append] at *
    rw [List.filter_cons]
    split
    · rw [List.reverse_cons, List.append_assoc]
      exact Nat.le_trans hrest (by omega)
    · omega

/-- Takes nodes from a stack until none is left.  Each meets its children, and those that have
children themselves go on the stack. -/
def traverse : List (Tree Nat) → Round α → Round α
  | [], round => round
  | node :: stack, round => traverse (waiting node.children ++ stack) (meetChildren node round)
termination_by stack => (Tree.flattenAll stack).length
decreasing_by
  obtain ⟨label, children⟩ := node
  have := length_flattenAll_waiting children stack
  simp only [Tree.children, Tree.flattenAll, Tree.flatten, List.length_append, List.length_cons]
  omega

end Round

/-! ## 2. Totals -/

namespace Pool

variable {α : Type} [Scalar α]

/-- A total with another one added: a list takes up the items of the other. -/
def gather (total other : Value α) : Except Fault (Value α) :=
  match total with
  | .list items => do return .list (items ++ (← other.items))
  | total => total.add other

/-- Starts the total of a node with its share. -/
def restart (pool : Pool α) (position : Nat) : Pool α :=
  pool.modify position fun node => { node with place := { node.place with total := node.self } }

/-- The node with another total, and with another share where that is the same list. -/
def withTotal (total : Value α) (node : PoolNode α) : PoolNode α :=
  let node := { node with place := { node.place with total } }
  match node.self with
  | .list _ => { node with self := total }
  | _ => node

/-- Adds the total of a node to its parent's. -/
def addInto (pool : Pool α) (position : Nat) : Except Fault (Pool α) :=
  match pool[position]?.bind fun node => node.place.parent with
  | none => .ok pool
  | some parent => do
    let total ← gather (pool.total parent) (pool.total position)
    return pool.modify parent (withTotal total)

/-- Adds up the totals of the nodes met, from the last to the first. -/
def addUp (pool : Pool α) (met : List Nat) : Except Fault (Pool α) :=
  met.reverse.foldlM addInto (met.foldl restart pool)

/-! ## 3. Trees -/

/-- A tree in a pool, laid out flat. -/
structure Layout (α : Type) where
  /-- The positions of its nodes in the pool, the root first. -/
  nodes : List Nat
  maxDepth : Nat
  total : Value α

/-- The layout before there is a tree. -/
def Layout.empty : Layout α := ⟨[], 0, .num 0⟩

/-- Makes a node the root of a tree: the pool with all places of the tree set, and the tree. -/
def rootAt (pool : Pool α) (root : Nat) : Except Fault (Pool α × Layout α) := do
  let round := Round.traverse [pool.treeFrom root] (Round.start pool root)
  let met := round.met.toList
  let pool ← addUp round.pool met
  return (pool, ⟨met, round.deepest, pool.total root⟩)

end Pool
end SampledProfile
