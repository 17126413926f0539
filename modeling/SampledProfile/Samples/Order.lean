/-
# Putting samples in order

Samples and their times are two lists side by side.  `Samples.sort` puts the first `m` entries of
both, `m` the length of the shorter list, in the order of the times; entries of equal times keep
their order, and entries from `m` on stay where they are.

First comes the order of the positions (`Samples.order`).

* Times that are numbers with a value have one stable order, and it is found by insertion from the
  end (`Samples.insert`): recorded times are nearly sorted, and a list that is sorted already takes
  one comparison for each entry.
* Other times may have several, or none: some have no value, and some cannot be compared, which
  refuses the whole.  They are sorted by runs (`Runs.sort`), which settles what is compared.

`Samples.inOrder` makes that distinction for entries of any kind.

Then the entries move to their places without a second copy of the lists (`Moving.settle`).  An
order of positions falls into cycles.  Along a cycle every position takes the entry that belongs
there, and the first entry, which was kept aside, goes to the last one (`Moving.follow`).  Positions
that have their entry are marked in the order itself.
-/
import SampledProfile.Samples.Runs
import SampledProfile.Value.Arithmetic

namespace SampledProfile
namespace Samples

/-! ## 1. Stable insertion -/

variable {β : Type}

/-- Inserts an entry into a list that is sorted from the last to the first, before all entries
that it is not below. -/
def insert (below : β → β → Bool) (entry : β) : List β → List β
  | [] => [entry]
  | last :: rest =>
    if below entry last then last :: insert below entry rest else entry :: last :: rest

/-- The entries in order, equal ones in the order they came in. -/
def stableSort (below : β → β → Bool) (entries : List β) : List β :=
  (entries.foldl (fun sorted entry => insert below entry sorted) []).reverse

/-! ## 2. Any entries -/

variable {α : Type} [Scalar α]

/-- Is the first value below the second?  Not all values can be compared. -/
def isBelow (a b : Value α) : Except Fault Bool :=
  match Value.below? a b with
  | some answer => .ok answer
  | none => .error .wrongType

/-- Is the value a number that has a value? -/
def isDefined (v : Value α) : Bool := (v.number?.map fun x => (Scalar.exact x).isDefined).getD false

/-- The entries in an order that goes by values: by insertion where all of them are numbers. -/
def inOrder (value : β → Value α) (below : β → β → Except Fault Bool) (entries : List β) :
    Except Fault (List β) :=
  if entries.all fun entry => isDefined (value entry) then
    .ok (stableSort (fun a b => (below a b).toOption.getD false) entries)
  else Runs.sort below entries

/-- So many positions in the order of the times that stand there. -/
def order (count : Nat) (times : List (Value α)) : Except Fault (List Nat) :=
  let moments := times.toArray
  let time (position : Nat) : Value α := moments.getD position .null
  inOrder time (fun i j => isBelow (time i) (time j)) (List.range count)

end Samples

/-! ## 3. Moving entries to their places -/

variable {σ τ : Type}

/-- Samples and times side by side, and for every position the one whose entry belongs there. -/
structure Moving (σ τ : Type) where
  samples : Array σ
  times : Array τ
  sources : Array Nat

namespace Moving

/-- The sample and the time at a position. -/
def pairAt (m : Moving σ τ) (position : Nat) : Option (σ × τ) :=
  match m.samples[position]?, m.times[position]? with
  | some sample, some time => some (sample, time)
  | _, _ => none

/-- Another sample and time at a position. -/
def put (m : Moving σ τ) (position : Nat) (entry : σ × τ) : Moving σ τ :=
  { m with
    samples := m.samples.setIfInBounds position entry.1
    times := m.times.setIfInBounds position entry.2 }

/-- Marks a position as one that has its entry. -/
def mark (m : Moving σ τ) (position : Nat) : Moving σ τ :=
  { m with sources := m.sources.setIfInBounds position position }

/-- Goes along a cycle of positions, from one that waits for the entry of another, until it comes
back to the first, whose entry was kept aside; `fuel` bounds the number of positions.  There is no
end where the order has a position twice. -/
def follow (first : Nat) (kept : σ × τ) : Nat → Nat → Nat → Moving σ τ → Option (Moving σ τ)
  | 0, _, _, _ => none
  | fuel + 1, target, source, m =>
    if source = first then some (m.put target kept)
    else do
      let entry ← m.pairAt source
      let next ← m.sources[source]?
      follow first kept fuel source next ((m.put target entry).mark source)

/-- Moves the entries of the cycle that a position is on, if it has not its own entry already. -/
def settleAt (m : Moving σ τ) (position : Nat) : Option (Moving σ τ) := do
  let source ← m.sources[position]?
  if source = position then return m
  let kept ← m.pairAt position
  follow position kept m.sources.size position source m

/-- Moves all entries to their places. -/
def settle (m : Moving σ τ) : Option (Moving σ τ) :=
  (List.range m.sources.size).foldlM settleAt m

end Moving

/-! ## 4. Samples with their times -/

namespace Samples

variable {α : Type} [Scalar α]

/-- Samples and times in the order of the times. -/
def sort (samples : List σ) (times : List (Value α)) :
    Except Fault (List σ × List (Value α)) := do
  let sources ← order (min samples.length times.length) times
  match Moving.settle ⟨samples.toArray, times.toArray, sources.toArray⟩ with
  | some moved => return (moved.samples.toList, moved.times.toList)
  | none => throw .outOfRange

end Samples
end SampledProfile
