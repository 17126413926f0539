/-
# Trees and their arenas

`Tree β` is a finite tree with a label at every node.  Its ARENA is the same tree laid out flat:
`Tree.arrange` gives an array of slots in which

* the root is first, and every other slot names the position of its parent, which comes earlier;
* the children of one node stand side by side in their order;
* every slot knows its depth, and its `total`, which is its own share plus the totals of its
  children, added from the last child to the first.

The layout takes the children of a node, puts them at the end, and then goes on with the
children's own trees from the last to the first (`Tree.place`).  Totals are added up afterwards in
one pass from the end, each slot into its parent (`Arena.addUp`).
-/
import SampledProfile.Numeric.Scalar

namespace SampledProfile

/-! ## 1. Trees -/

/-- A finite tree with labels. -/
inductive Tree (β : Type) where
  | node (label : β) (children : List (Tree β))

namespace Tree

variable {β : Type}

/-- The label of the root. -/
def label : Tree β → β
  | node label _ => label

/-- The trees below the root. -/
def children : Tree β → List (Tree β)
  | node _ children => children

/-- A tree of one node. -/
def leaf (label : β) : Tree β := node label []

/-- The tree with one more child, behind the others. -/
def attach : Tree β → Tree β → Tree β
  | node label children, child => node label (children ++ [child])

/-- The tree with another label at its root. -/
def relabel (f : β → β) : Tree β → Tree β
  | node label children => node (f label) children

mutual

/-- All nodes, each before those below it, with their labels and their children's labels. -/
def flatten : Tree β → List (β × List β)
  | node label children => (label, children.map Tree.label) :: flattenAll children

/-- All nodes of some trees in order. -/
def flattenAll : List (Tree β) → List (β × List β)
  | [] => []
  | tree :: rest => flatten tree ++ flattenAll rest

end
end Tree

/-! ## 2. Arenas -/

/-- One node of a tree laid out flat. -/
structure Slot (β α : Type) where
  label : β
  /-- The number of steps from the root. -/
  depth : Nat
  /-- The position of the parent; the root has none. -/
  parent : Option Nat
  /-- The share of the node and all below it. -/
  total : α

/-- A tree laid out flat. -/
abbrev Arena (β α : Type) := Array (Slot β α)

namespace Tree

variable {β α : Type}

mutual

/-- Lays out what is below a node, which has itself been given a position and a depth. -/
def place (share : β → α) : Tree β → Nat → Nat → Arena β α → Arena β α
  | node _ children, position, depth, arena =>
    let slots := children.map fun child =>
      (⟨child.label, depth + 1, some position, share child.label⟩ : Slot β α)
    placeAll share children arena.size (depth + 1) (arena ++ slots)

/-- Lays out what is below each of some neighbours, from the last to the first. -/
def placeAll (share : β → α) : List (Tree β) → Nat → Nat → Arena β α → Arena β α
  | [], _, _, arena => arena
  | tree :: rest, position, depth, arena =>
    place share tree position depth (placeAll share rest (position + 1) depth arena)

end

end Tree

namespace Arena

variable {β α : Type}

/-- Adds the total of the slot at a position to its parent's. -/
def addInto [Add α] (arena : Arena β α) (position : Nat) : Arena β α :=
  match arena[position]? with
  | some slot =>
    match slot.parent with
    | some parent =>
      arena.modify parent fun above => { above with total := above.total + slot.total }
    | none => arena
  | none => arena

/-- Adds totals into parents for all positions below a bound, from the last to the first. -/
def addUp [Add α] : Nat → Arena β α → Arena β α
  | 0, arena => arena
  | bound + 1, arena => addUp bound (arena.addInto bound)

/-- The depth of a position, zero outside. -/
def depth (arena : Arena β α) (position : Nat) : Nat := (arena[position]?.map Slot.depth).getD 0

/-- The parent of a position. -/
def parent? (arena : Arena β α) (position : Nat) : Option Nat :=
  arena[position]?.bind Slot.parent

/-- The largest depth. -/
def maxDepth (arena : Arena β α) : Nat := arena.foldl (fun most slot => max most slot.depth) 0

/-- The total of the root, zero if there is none. -/
def total [Zero α] (arena : Arena β α) : α := (arena[0]?.map Slot.total).getD 0

/-- The positions of the children of a position, in order. -/
def children (arena : Arena β α) (position : Nat) : List Nat :=
  (List.range arena.size).filter fun other => decide (arena.parent? other = some position)

/-- The top-level node at or above a position: the one whose parent is the root.  The root is
its own; `fuel` bounds the number of steps. -/
def topFrom (parent? : Nat → Option Nat) : Nat → Nat → Nat
  | 0, position => position
  | fuel + 1, position =>
    match parent? position with
    | some above => if (parent? above).isSome then topFrom parent? fuel above else position
    | none => position

/-- The levels from a list of positions downwards, so many of them. -/
def levels (arena : Arena β α) : Nat → List Nat → List Nat
  | 0, _ => []
  | count + 1, row =>
    let next := row.flatMap arena.children
    next ++ levels arena count next

/-- All positions but the root, level by level. -/
def levelOrder (arena : Arena β α) : List Nat := arena.levels arena.maxDepth [0]

end Arena

/-- The arena of a tree, each node with its share and the totals added up. -/
def Tree.arrange {β α : Type} [Add α] (share : β → α) (tree : Tree β) : Arena β α :=
  let root : Slot β α := ⟨tree.label, 0, none, share tree.label⟩
  let placed := tree.place share 0 0 #[root]
  placed.addUp placed.size

end SampledProfile
