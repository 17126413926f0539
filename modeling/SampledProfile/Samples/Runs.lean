/-
# Sorting by merging runs

Where every two entries can be compared and the order is total, there is one stable arrangement, and
it does not matter how it is found.  Times that are no numbers leave more than one: then the
arrangement is the one that comes of the comparisons made, and this module fixes which are made.

The entries are cut into runs, from the left: a run goes on as long as no entry is below the one
before it, or as long as every one is, and then it is turned round.  A run that is too short takes
up further entries one by one (`Runs.insert`).  Neighbouring runs are merged, in an order that
depends on where their middles lie (`Runs.power`):

* `Runs.search` finds the place of an entry in a run, by strides of growing width from a hint;
* `Runs.merge` merges two runs, from the front or from the back, entry by entry, and by search
  where one of them wins again and again;
* `Runs.sort` is the whole of it.

Any comparison may be refused, and then there is no result.
-/
import SampledProfile.Fault

namespace SampledProfile
namespace Runs

variable {β : Type}

/-- An order of which any question may be refused. -/
abbrev Order (β : Type) := β → β → Except Fault Bool

/-! ## 1. Searching a run -/

/-- The first position from `low` on and below `high` at which a test fails, `high` if there is
none, as halving finds it; `fuel` bounds the number of halvings. -/
def bisect (passes : Nat → Except Fault Bool) : Nat → Nat → Nat → Except Fault Nat
  | 0, low, _ => .ok low
  | fuel + 1, low, high => do
    if low < high then
      let middle := (low + high) / 2
      if ← passes middle then bisect passes fuel (middle + 1) high
      else bisect passes fuel low middle
    else return low

/-- The last of the distances 1, 3, 7, … and below `most` up to which a test passes, zero if there
is none, and the distance after it; `fuel` bounds the number of tests. -/
def stride (passes : Nat → Except Fault Bool) (most : Nat) :
    Nat → Nat → Nat → Except Fault (Nat × Nat)
  | 0, last, next => .ok (last, min next most)
  | fuel + 1, last, next => do
    if next < most then
      if ← passes next then stride passes most fuel next (2 * next + 1)
      else return (last, next)
    else return (last, most)

/-- How many of the first `size` positions pass a test, searched from a hint on. -/
def searchFrom (passes : Nat → Except Fault Bool) (size hint : Nat) : Except Fault Nat := do
  if ← passes hint then
    let (last, next) ← stride (fun step => passes (hint + step)) (size - hint) size 0 1
    bisect passes size (hint + last + 1) (hint + next)
  else
    let (last, next) ←
      stride (fun step => do return !(← passes (hint - step))) (hint + 1) size 0 1
    bisect passes size (hint + 1 - next) (hint - last)

/-- How many entries of a run pass a test, searched from a hint on. -/
def search (passes : β → Except Fault Bool) (run : List β) (hint : Nat) : Except Fault Nat :=
  let entries := run.toArray
  searchFrom (fun i => (entries[i]?.map passes).getD (.ok false)) entries.size hint

/-! ## 2. Runs -/

/-- The longest start of a list, at most `fuel` entries after the first, in which the comparison of
each entry with the one before it gives `want`; the start is given from its end. -/
def startWhere (below : Order β) (want : Bool) :
    List β → β → List β → Except Fault (List β × List β)
  | taken, last, [] => .ok (last :: taken, [])
  | taken, last, entry :: rest => do
    if (← below entry last) = want then startWhere below want (last :: taken) entry rest
    else return (last :: taken, entry :: rest)

/-- The natural run at the start of a list, in order, and what follows it. -/
def naturalRun (below : Order β) : List β → Except Fault (List β × List β)
  | first :: second :: rest => do
    if ← below second first then startWhere below true [first] second rest
    else
      let (run, rest) ← startWhere below false [first] second rest
      return (run.reverse, rest)
  | entries => .ok (entries, [])

/-- Puts an entry into a run, behind all that it is not below. -/
def insert (below : Order β) (run : List β) (entry : β) : Except Fault (List β) := do
  let entries := run.toArray
  let place ← bisect
    (fun i => do return !(← (entries[i]?.map (below entry)).getD (.ok true)))
    run.length 0 run.length
  return run.take place ++ entry :: run.drop place

/-- The length that a run should have at least among so many entries: about as many as leave a
number of runs that is a power of two, or a little less; `fuel` bounds the number of halvings. -/
def leastLength : Nat → Nat → Nat → Nat
  | 0, size, odd => size + odd
  | fuel + 1, size, odd =>
    if size < 64 then size + odd else leastLength fuel (size / 2) (max odd (size % 2))

/-- The run at the start of a list, of at least some length if there is as much. -/
def nextRun (below : Order β) (least : Nat) (entries : List β) :
    Except Fault (List β × List β) := do
  let (run, rest) ← naturalRun below entries
  let missing := least - run.length
  return (← (rest.take missing).foldlM (insert below) run, rest.drop missing)

/-! ## 3. Merging two runs -/

/-- The end from which two runs are merged. -/
inductive Side where
  | front
  | back
  deriving DecidableEq

/-- Two runs on their way into one, each with the entry at its head that is to be taken next. -/
structure Merge (β : Type) where
  /-- What was taken already, the last of it first. -/
  taken : List β
  /-- The shorter run, of which two entries at least are left. -/
  short : List β
  /-- The longer run, of which one entry at least is left. -/
  long : List β
  /-- How often one run has to win in a row before the other one is searched. -/
  patience : Nat

/-- Why a merge stops. -/
inductive Stop (β : Type) where
  /-- A comparison is refused. -/
  | refused (fault : Fault)
  /-- All is merged. -/
  | merged (all : List β) (patience : Nat)

namespace Merge

/-- Takes some entries of the longer run; once it is used up, the other one follows. -/
def takeLong (count : Nat) (m : Merge β) : Except (Stop β) (Merge β) :=
  let taken := (m.long.take count).reverse ++ m.taken
  match m.long.drop count with
  | [] => .error (.merged (taken.reverse ++ m.short) m.patience)
  | long => .ok { m with taken, long }

/-- Takes some entries of the shorter run; the last entry of it is known to go to the end. -/
def takeShort (count : Nat) (m : Merge β) : Except (Stop β) (Merge β) :=
  let taken := (m.short.take count).reverse ++ m.taken
  match m.short.drop count with
  | [] => .error (.merged (taken.reverse ++ m.long) m.patience)
  | [last] => .error (.merged (taken.reverse ++ m.long ++ [last]) m.patience)
  | short => .ok { m with taken, short }

/-- The answer to a question, which stops a merge if it is refused. -/
def asked {γ : Type} : Except Fault γ → Except (Stop β) γ
  | .ok answer => .ok answer
  | .error fault => .error (.refused fault)

variable (below : Order β) (side : Side)

/-- Is the head of the longer run to be taken before that of the shorter one? -/
def longWins (short long : β) : Except Fault Bool :=
  match side with
  | .front => below long short
  | .back => below short long

/-- How many entries at the head of a run are to be taken before an entry of the other one; `isLeft`
says if the run is the left one of the two. -/
def leading (isLeft : Bool) (other : β) (run : List β) : Except Fault Nat :=
  let passes (entry : β) : Except Fault Bool :=
    if isLeft then do return !(← below other entry) else below entry other
  match side with
  | .front => search passes run 0
  | .back => do return run.length - (← search passes run.reverse (run.length - 1))

/-- Takes entry by entry, until one run has won often enough in a row; `fuel` bounds the number of
entries. -/
def stepwise : Nat → Nat → Nat → Merge β → Except (Stop β) (Merge β)
  | 0, _, _, m => .ok m
  | fuel + 1, shorts, longs, m =>
    match m.short, m.long with
    | short :: _, long :: _ => do
      if ← asked (longWins below side short long) then
        let m ← m.takeLong 1
        if m.patience ≤ longs + 1 then return m else stepwise fuel 0 (longs + 1) m
      else
        let m ← m.takeShort 1
        if m.patience ≤ shorts + 1 then return m else stepwise fuel (shorts + 1) 0 m
    | _, _ => .ok m

/-- Takes all of the shorter run that comes before the longer one, and then one of the longer. -/
def leapShort (m : Merge β) : Except (Stop β) (Merge β × Nat) :=
  match m.long with
  | [] => .ok (m, 0)
  | long :: _ => do
    let count ← asked (leading below side (side = .front) long m.short)
    return (← (← m.takeShort count).takeLong 1, count)

/-- Takes all of the longer run that comes before the shorter one, and then one of the shorter. -/
def leapLong (m : Merge β) : Except (Stop β) (Merge β × Nat) :=
  match m.short with
  | [] => .ok (m, 0)
  | short :: _ => do
    let count ← asked (leading below side (side = .back) short m.long)
    return (← (← m.takeLong count).takeShort 1, count)

/-- Searches the left run and then the right one. -/
def leap (m : Merge β) : Except (Stop β) (Merge β × Nat × Nat) := do
  let (m, first) ←
    match side with
    | .front => leapShort below side m
    | .back => leapLong below side m
  let (m, second) ←
    match side with
    | .front => leapLong below side m
    | .back => leapShort below side m
  return (m, first, second)

/-- So many entries in a row make a search worth while. -/
def worthwhile : Nat := 7

/-- Takes by search, as long as that is worth while; `fuel` bounds the number of rounds. -/
def leaps : Nat → Merge β → Except (Stop β) (Merge β)
  | 0, m => .ok m
  | fuel + 1, m => do
    let (m, first, second) ← leap below side m
    if worthwhile ≤ first ∨ worthwhile ≤ second then
      leaps fuel { m with patience := max 1 (m.patience - 1) }
    else return { m with patience := m.patience + 1 }

/-- Merges in turns, stepwise and by search; `fuel` bounds the number of turns. -/
def turns : Nat → Merge β → Except (Stop β) (Merge β)
  | 0, m => .ok m
  | fuel + 1, m => do
    let size := m.short.length + m.long.length
    let m ← stepwise below side size 0 0 m
    let m ← leaps below side size m
    turns fuel m

/-- Merges two runs of which the head of the longer one is to be taken first. -/
def all (m : Merge β) : Except Fault (List β × Nat) :=
  let result : Except (Stop β) (Merge β) := do
    let m ← m.takeLong 1
    let m ← m.takeShort 0
    turns below side (m.short.length + m.long.length) m
  match result with
  | .ok m => .ok (m.taken.reverse ++ m.short ++ m.long, m.patience)
  | .error (.merged all patience) => .ok (all, patience)
  | .error (.refused fault) => .error fault

end Merge

/-- Merges two neighbouring runs.  What of the left one comes before all of the right one stays
where it is, as does what of the right one comes after all of the left one. -/
def merge (below : Order β) (left right : List β) (patience : Nat) :
    Except Fault (List β × Nat) :=
  match right with
  | [] => .ok (left, patience)
  | head :: _ => do
    let before ← search (fun entry => do return !(← below head entry)) left 0
    let rest := left.drop before
    match rest.getLast? with
    | none => return (left ++ right, patience)
    | some last =>
      let count ← search (fun entry => below entry last) right (right.length - 1)
      let upTo := right.take count
      let (middle, patience) ←
        if count = 0 then pure (rest, patience)
        else if rest.length ≤ count then Merge.all below .front ⟨[], rest, upTo, patience⟩
        else do
          let (middle, patience) ←
            Merge.all below .back ⟨[], upTo.reverse, rest.reverse, patience⟩
          pure (middle.reverse, patience)
      return (left.take before ++ middle ++ right.drop count, patience)

/-! ## 4. Merging all runs -/

/-- A run that waits to be merged. -/
structure Pending (β : Type) where
  entries : List β
  start : Nat
  /-- How deep the border to the next run lies. -/
  depth : Nat

/-- The runs that wait, the last one first, and the patience of merges. -/
structure Waiting (β : Type) where
  runs : List (Pending β)
  patience : Nat

/-- How deep the border between two neighbouring runs lies when the whole is halved again and again:
the first halving at which the middles of the two come apart.  Both middles are given in halves of
an entry; `fuel` bounds the number of halvings. -/
def power (size : Nat) : Nat → Nat → Nat → Nat
  | 0, _, _ => 0
  | fuel + 1, left, right =>
    if size ≤ left then power size fuel (2 * (left - size)) (2 * (right - size)) + 1
    else if size ≤ right then 1
    else power size fuel (2 * left) (2 * right) + 1

/-- Two neighbouring runs as one. -/
def join (below : Order β) (left right : Pending β) (patience : Nat) :
    Except Fault (Pending β × Nat) := do
  let (entries, patience) ← merge below left.entries right.entries patience
  return ({ left with entries }, patience)

/-- Merges the last two runs as long as the border between them lies deeper than some depth; `fuel`
bounds the number of merges. -/
def collapse (below : Order β) (depth : Nat) : Nat → Waiting β → Except Fault (Waiting β)
  | 0, waiting => .ok waiting
  | fuel + 1, waiting =>
    match waiting.runs with
    | last :: next :: rest =>
      if depth < next.depth then do
        let (run, patience) ← join below next last waiting.patience
        collapse below depth fuel ⟨run :: rest, patience⟩
      else .ok waiting
    | _ => .ok waiting

/-- Adds a run at the end.  Runs before it whose borders lie deeper are merged first. -/
def push (below : Order β) (size : Nat) (waiting : Waiting β) (run : List β) :
    Except Fault (Waiting β) :=
  match waiting.runs with
  | [] => .ok { waiting with runs := [⟨run, 0, 0⟩] }
  | last :: _ => do
    let start := last.start + last.entries.length
    let middle := last.start + start
    let depth := power size (size + 64) middle (middle + last.entries.length + run.length)
    let waiting ← collapse below depth waiting.runs.length waiting
    match waiting.runs with
    | [] => return waiting
    | last :: rest => return { waiting with runs := ⟨run, start, 0⟩ :: { last with depth } :: rest }

/-- Cuts a list into runs, which are merged as they come; `fuel` bounds the number of runs. -/
def cut (below : Order β) (size least : Nat) :
    Nat → List β → Waiting β → Except Fault (Waiting β)
  | 0, _, waiting => .ok waiting
  | _, [], waiting => .ok waiting
  | fuel + 1, entries, waiting => do
    let (run, rest) ← nextRun below least entries
    cut below size least fuel rest (← push below size waiting run)

/-- Merges all runs that wait, the smaller neighbour of the last but one first; `fuel` bounds the
number of merges. -/
def mergeAll (below : Order β) : Nat → Waiting β → Except Fault (List β)
  | 0, waiting => .ok (waiting.runs.reverse.flatMap Pending.entries)
  | fuel + 1, waiting =>
    match waiting.runs with
    | last :: middle :: first :: rest =>
      if first.entries.length < last.entries.length then do
        let (run, patience) ← join below first middle waiting.patience
        mergeAll below fuel ⟨last :: run :: rest, patience⟩
      else do
        let (run, patience) ← join below middle last waiting.patience
        mergeAll below fuel ⟨run :: first :: rest, patience⟩
    | [last, first] => do return (← join below first last waiting.patience).1.entries
    | [only] => .ok only.entries
    | [] => .ok []

/-- The entries of a list in order. -/
def sort (below : Order β) (entries : List β) : Except Fault (List β) := do
  let size := entries.length
  let waiting ←
    cut below size (leastLength size size 0) size entries ⟨[], Merge.worthwhile⟩
  mergeAll below size waiting

end Runs
end SampledProfile
