/-
# Sorting asks and nothing else

Sorting by runs fails only where a comparison is refused: if the comparisons of all entries end with
faults of some kind or not at all, then so does sorting them (`Runs.failsAs_sort`).  What is compared
on the way are always entries of the list, as nothing else comes in (`Proofs.Samples.Permutation`).

So samples can be sorted whenever their times are numbers, be it numbers without a value
(`Samples.exists_sort`).
-/
import SampledProfile.Proofs.Samples.Permutation

namespace SampledProfile
namespace Runs

open Outcome

variable {β : Type} {faulty : Fault → Prop} {below : Order β}

/-! ## 1. Searching a run -/

theorem failsAs_not {question : Except Fault Bool} (h : FailsAs faulty question) :
    FailsAs faulty (do return !(← question)) :=
  h.bind fun _ => .ok _ _

section Search

variable {passes : Nat → Except Fault Bool}

theorem failsAs_bisect (h : ∀ i, FailsAs faulty (passes i)) : ∀ fuel low high : Nat,
    FailsAs faulty (bisect passes fuel low high)
  | 0, _, _ => trivial
  | fuel + 1, low, high => by
    unfold bisect
    split
    · refine (h _).bind fun answer => ?_
      split
      · exact failsAs_bisect h fuel _ _
      · exact failsAs_bisect h fuel _ _
    · trivial

theorem failsAs_stride (h : ∀ i, FailsAs faulty (passes i)) (most : Nat) : ∀ fuel last next : Nat,
    FailsAs faulty (stride passes most fuel last next)
  | 0, _, _ => trivial
  | fuel + 1, last, next => by
    unfold stride
    split
    · refine (h _).bind fun answer => ?_
      split
      · exact failsAs_stride h most fuel _ _
      · trivial
    · trivial

theorem failsAs_searchFrom (h : ∀ i, FailsAs faulty (passes i)) (size hint : Nat) :
    FailsAs faulty (searchFrom passes size hint) := by
  refine (h hint).bind fun answer => ?_
  split
  · refine (failsAs_stride (fun step => h _) _ _ _ _).bind fun _ => ?_
    exact failsAs_bisect h _ _ _
  · refine (failsAs_stride (fun step => failsAs_not (h _)) _ _ _ _).bind fun _ => ?_
    exact failsAs_bisect h _ _ _

theorem failsAs_search {passes : β → Except Fault Bool} {run : List β}
    (h : ∀ entry ∈ run, FailsAs faulty (passes entry)) (hint : Nat) :
    FailsAs faulty (search passes run hint) := by
  unfold search
  refine failsAs_searchFrom (fun i => ?_) _ _
  cases hentry : run.toArray[i]? with
  | none => trivial
  | some entry => exact h entry (by simpa using Array.mem_of_getElem? hentry)

end Search

/-- The comparisons of entries with some property fail in some way only. -/
abbrev AsksAs (faulty : Fault → Prop) (below : Order β) (among : β → Prop) : Prop :=
  ∀ a, among a → ∀ b, among b → FailsAs faulty (below a b)

variable {among : β → Prop} (hbelow : AsksAs faulty below among)

include hbelow

/-! ## 2. Runs -/

theorem failsAs_startWhere (want : Bool) : ∀ {taken : List β} {last : β} {entries : List β},
    among last → (∀ entry ∈ entries, among entry) →
      FailsAs faulty (startWhere below want taken last entries)
  | _, _, [], _, _ => trivial
  | taken, last, entry :: rest, hlast, h => by
    obtain ⟨hentry, hrest⟩ := List.forall_mem_cons.mp h
    refine (hbelow entry hentry last hlast).bind fun answer => ?_
    split
    · exact failsAs_startWhere want hentry hrest
    · trivial

theorem failsAs_naturalRun {entries : List β} (h : ∀ entry ∈ entries, among entry) :
    FailsAs faulty (naturalRun below entries) := by
  match entries, h with
  | [], _ => trivial
  | [_], _ => trivial
  | first :: second :: rest, h =>
    obtain ⟨hfirst, h⟩ := List.forall_mem_cons.mp h
    obtain ⟨hsecond, hrest⟩ := List.forall_mem_cons.mp h
    refine (hbelow second hsecond first hfirst).bind fun answer => ?_
    split
    · exact failsAs_startWhere hbelow true hsecond hrest
    · exact (failsAs_startWhere hbelow false hsecond hrest).bind fun _ => .ok _ _

theorem failsAs_insert {run : List β} {entry : β} (hentry : among entry)
    (h : ∀ other ∈ run, among other) : FailsAs faulty (insert below run entry) := by
  refine (failsAs_bisect (fun i => ?_) _ _ _).bind fun _ => .ok _ _
  cases hother : run.toArray[i]? with
  | none => trivial
  | some other =>
    have hmem : other ∈ run := by simpa using Array.mem_of_getElem? hother
    exact failsAs_not (hbelow entry hentry other (h other hmem))

theorem ends_nextRun (least : Nat) {entries : List β} (h : ∀ entry ∈ entries, among entry) :
    Ends faulty (fun split => (∀ entry ∈ split.1, among entry) ∧ ∀ entry ∈ split.2, among entry)
      (nextRun below least entries) := by
  have hnatural := (failsAs_naturalRun hbelow h).and_ok fun split hsplit =>
    (content_of_naturalRun hsplit).1
  refine hnatural.bind fun ⟨run, rest⟩ ⟨_, hcontent⟩ => ?_
  have hall : ∀ entry, entry ∈ run ∨ entry ∈ rest → among entry := by
    intro entry hentry
    refine h entry ?_
    rwa [← Multiset.mem_coe, ← hcontent, Multiset.mem_add, Multiset.mem_coe, Multiset.mem_coe]
  have hfold : Ends faulty (fun run => ∀ entry ∈ run, among entry)
      ((rest.take (least - run.length)).foldlM (insert below) run) := by
    refine Ends.foldlM (fun run hrun entry hentry => ?_) fun entry hentry => hall entry (.inl hentry)
    have hmore := hall entry (.inr (List.mem_of_mem_take hentry))
    refine ((failsAs_insert hbelow hmore hrun).and_ok fun longer hlonger =>
      content_of_insert hlonger).mono fun longer hlonger other hother => ?_
    rw [← Multiset.mem_coe, hlonger.2, Multiset.mem_cons] at hother
    rcases hother with rfl | hother
    · exact hmore
    · exact hrun other hother
  refine hfold.bind fun longer hlonger => ⟨hlonger, fun entry hentry => ?_⟩
  exact hall entry (.inr (List.mem_of_mem_drop hentry))

/-! ## 3. Merging two runs -/

namespace Merge

/-- A merge that stops does so because all is merged, or with a fault of some kind. -/
def StopsAs (faulty : Fault → Prop) : Stop β → Prop
  | .refused fault => faulty fault
  | .merged .. => True

variable {side : Side} {m : Merge β}

omit hbelow

theorem Keeps.of_eq_ok {γ : Type} {content : Multiset β} {state : γ → Merge β}
    {x : Except (Stop β) γ} {result : γ} (h : Keeps content state x) (hx : x = .ok result) :
    (state result).content = content := by
  rw [hx] at h
  exact h

theorem failsAs_asked {γ : Type} {question : Except Fault γ} (h : FailsAs faulty question) :
    FailsAs (StopsAs faulty) (asked question : Except (Stop β) γ) := by
  cases question with
  | ok answer => trivial
  | error fault => exact h

/-- Taking entries asks nothing and keeps the content. -/
theorem ends_takeLong (faulty : Fault → Prop) (count : Nat) (m : Merge β) :
    Ends (StopsAs faulty) (fun next => next.content = m.content) (m.takeLong count) := by
  have hstops : FailsAs (StopsAs faulty) (m.takeLong count) := by
    unfold takeLong
    split
    · trivial
    · trivial
  exact (hstops.and_ok fun _ => (keeps_takeLong count rfl).of_eq_ok).mono fun _ => And.right

theorem ends_takeShort (faulty : Fault → Prop) (count : Nat) (m : Merge β) :
    Ends (StopsAs faulty) (fun next => next.content = m.content) (m.takeShort count) := by
  have hstops : FailsAs (StopsAs faulty) (m.takeShort count) := by
    unfold takeShort
    split
    · trivial
    · trivial
    · trivial
  exact (hstops.and_ok fun _ => (keeps_takeShort count rfl).of_eq_ok).mono fun _ => And.right

theorem mem_content : ∀ {entry : β}, entry ∈ m.short ∨ entry ∈ m.long → entry ∈ m.content := by
  intro entry h
  rw [content, Multiset.mem_add, Multiset.mem_add, Multiset.mem_coe, Multiset.mem_coe,
    Multiset.mem_coe]
  rcases h with h | h
  · exact .inl (.inr h)
  · exact .inr h

include hbelow

theorem failsAs_longWins {short long : β} (hshort : among short) (hlong : among long) :
    FailsAs faulty (longWins below side short long) := by
  cases side with
  | front => exact hbelow long hlong short hshort
  | back => exact hbelow short hshort long hlong

theorem failsAs_leading (isLeft : Bool) {other : β} {run : List β} (hother : among other)
    (h : ∀ entry ∈ run, among entry) : FailsAs faulty (leading below side isLeft other run) := by
  have hpasses : ∀ entry ∈ run, FailsAs faulty (if isLeft = true then do
      return !(← below other entry) else below entry other) := by
    intro entry hentry
    split
    · exact failsAs_not (hbelow other hother entry (h entry hentry))
    · exact hbelow entry (h entry hentry) other hother
  cases side with
  | front => exact failsAs_search hpasses 0
  | back =>
    refine (failsAs_search (fun entry hentry => ?_) _).bind fun _ => .ok _ _
    exact hpasses entry (List.mem_reverse.mp hentry)

theorem failsAs_stepwise : ∀ (fuel shorts longs : Nat) {m : Merge β},
    (∀ entry ∈ m.content, among entry) →
      FailsAs (StopsAs faulty) (stepwise below side fuel shorts longs m)
  | 0, _, _, _, _ => trivial
  | fuel + 1, shorts, longs, m, h => by
    unfold stepwise
    split
    · rename_i short _ long _ hshort hlong
      have hheads : FailsAs faulty (longWins below side short long) := failsAs_longWins hbelow
        (h short (mem_content (.inl (hshort ▸ List.mem_cons_self))))
        (h long (mem_content (.inr (hlong ▸ List.mem_cons_self))))
      refine (failsAs_asked hheads).bind fun answer => ?_
      split
      · refine (ends_takeLong faulty 1 m).bind fun next hnext => ?_
        split
        · trivial
        · exact failsAs_stepwise fuel 0 (longs + 1) (hnext ▸ h)
      · refine (ends_takeShort faulty 1 m).bind fun next hnext => ?_
        split
        · trivial
        · exact failsAs_stepwise fuel (shorts + 1) 0 (hnext ▸ h)
    · trivial

theorem failsAs_leapShort (h : ∀ entry ∈ m.content, among entry) :
    FailsAs (StopsAs faulty) (leapShort below side m) := by
  unfold leapShort
  split
  · trivial
  · rename_i long _ hlong
    refine (failsAs_asked (failsAs_leading hbelow _
      (h long (mem_content (.inr (hlong ▸ List.mem_cons_self))))
      fun entry hentry => h entry (mem_content (.inl hentry)))).bind fun count => ?_
    refine (ends_takeShort faulty count m).bind fun next _ => ?_
    exact (ends_takeLong faulty 1 next).bind fun _ _ => trivial

theorem failsAs_leapLong (h : ∀ entry ∈ m.content, among entry) :
    FailsAs (StopsAs faulty) (leapLong below side m) := by
  unfold leapLong
  split
  · trivial
  · rename_i short _ hshort
    refine (failsAs_asked (failsAs_leading hbelow _
      (h short (mem_content (.inl (hshort ▸ List.mem_cons_self))))
      fun entry hentry => h entry (mem_content (.inr hentry)))).bind fun count => ?_
    refine (ends_takeLong faulty count m).bind fun next _ => ?_
    exact (ends_takeShort faulty 1 next).bind fun _ _ => trivial

theorem failsAs_leap (h : ∀ entry ∈ m.content, among entry) :
    FailsAs (StopsAs faulty) (leap below side m) := by
  cases side with
  | front =>
    refine ((failsAs_leapShort hbelow h).and_ok fun _ => (keeps_leapShort rfl).of_eq_ok).bind
      fun next ⟨_, hnext⟩ => ?_
    exact (failsAs_leapLong hbelow (hnext ▸ h)).bind fun _ => .ok _ _
  | back =>
    refine ((failsAs_leapLong hbelow h).and_ok fun _ => (keeps_leapLong rfl).of_eq_ok).bind
      fun next ⟨_, hnext⟩ => ?_
    exact (failsAs_leapShort hbelow (hnext ▸ h)).bind fun _ => .ok _ _

theorem failsAs_leaps : ∀ (fuel : Nat) {m : Merge β}, (∀ entry ∈ m.content, among entry) →
    FailsAs (StopsAs faulty) (leaps below side fuel m)
  | 0, _, _ => trivial
  | fuel + 1, m, h => by
    refine ((failsAs_leap hbelow h).and_ok fun _ => (keeps_leap rfl).of_eq_ok).bind
      fun ⟨next, first, second⟩ ⟨_, hnext⟩ => ?_
    dsimp only
    split
    · exact failsAs_leaps fuel (hnext ▸ h)
    · trivial

theorem failsAs_turns : ∀ (fuel : Nat) {m : Merge β}, (∀ entry ∈ m.content, among entry) →
    FailsAs (StopsAs faulty) (turns below side fuel m)
  | 0, _, _ => trivial
  | fuel + 1, m, h => by
    refine ((failsAs_stepwise hbelow _ 0 0 h).and_ok fun _ =>
      (keeps_stepwise _ 0 0 rfl).of_eq_ok).bind fun next ⟨_, hnext⟩ => ?_
    refine ((failsAs_leaps hbelow _ (hnext ▸ h)).and_ok fun _ =>
      (keeps_leaps _ rfl).of_eq_ok).bind fun last ⟨_, hlast⟩ => ?_
    exact failsAs_turns fuel (hlast ▸ hnext ▸ h)

theorem failsAs_all (h : ∀ entry ∈ m.content, among entry) :
    FailsAs faulty (Merge.all below side m) := by
  have hmerge : FailsAs (StopsAs faulty) (do
      let m ← m.takeLong 1
      let m ← m.takeShort 0
      turns below side (m.short.length + m.long.length) m) := by
    refine (ends_takeLong faulty 1 m).bind fun next hnext => ?_
    refine (ends_takeShort faulty 0 next).bind fun last hlast => ?_
    exact failsAs_turns hbelow _ (hlast ▸ hnext ▸ h)
  unfold Merge.all
  dsimp only
  split
  · trivial
  · trivial
  · rename_i fault hfault
    rw [hfault] at hmerge
    exact hmerge

end Merge

theorem failsAs_merge {left right : List β} (hleft : ∀ entry ∈ left, among entry)
    (hright : ∀ entry ∈ right, among entry) (patience : Nat) :
    FailsAs faulty (merge below left right patience) := by
  unfold merge
  split
  · trivial
  · rename_i head tail
    have hhead := hright head List.mem_cons_self
    refine (failsAs_search (fun entry hentry =>
      failsAs_not (hbelow head hhead entry (hleft entry hentry))) _).bind fun before => ?_
    dsimp only
    split
    · trivial
    · rename_i last hlast
      have hrest : ∀ entry ∈ left.drop before, among entry := fun entry hentry =>
        hleft entry (List.mem_of_mem_drop hentry)
      refine (failsAs_search (fun entry hentry => hbelow entry (hright entry hentry) last
        (hrest last (List.mem_of_getLast? hlast))) _).bind fun count => ?_
      have hupTo : ∀ entry ∈ (head :: tail).take count, among entry := fun entry hentry =>
        hright entry (List.mem_of_mem_take hentry)
      split
      · exact .ok _ _
      · split
        · refine (Merge.failsAs_all hbelow fun entry hentry => ?_).bind fun _ => .ok _ _
          simp only [Merge.content, Multiset.coe_nil, zero_add, Multiset.mem_add,
            Multiset.mem_coe] at hentry
          exact hentry.elim (hrest entry) (hupTo entry)
        · refine (Merge.failsAs_all hbelow fun entry hentry => ?_).bind fun _ => .ok _ _
          simp only [Merge.content, Multiset.coe_nil, zero_add, Multiset.mem_add,
            Multiset.mem_coe, List.mem_reverse] at hentry
          exact hentry.elim (hupTo entry) (hrest entry)

/-! ## 4. Merging all runs -/

/-- All entries of the runs that wait have a property. -/
def Waiting.Among (among : β → Prop) (waiting : Waiting β) : Prop :=
  ∀ run ∈ waiting.runs, ∀ entry ∈ run.entries, among entry

theorem ends_join {left right : Pending β} (hleft : ∀ entry ∈ left.entries, among entry)
    (hright : ∀ entry ∈ right.entries, among entry) (patience : Nat) :
    Ends faulty (fun joined => ∀ entry ∈ joined.1.entries, among entry)
      (join below left right patience) := by
  have hjoin : FailsAs faulty (join below left right patience) :=
    (failsAs_merge hbelow hleft hright _).bind fun _ => .ok _ _
  refine (hjoin.and_ok fun _ => content_of_join).mono fun joined ⟨_, hcontent⟩ entry hentry => ?_
  rw [← Multiset.mem_coe, hcontent, Multiset.mem_add, Multiset.mem_coe, Multiset.mem_coe] at hentry
  exact hentry.elim (hleft entry) (hright entry)

theorem ends_collapse (depth : Nat) : ∀ (fuel : Nat) {waiting : Waiting β}, waiting.Among among →
    Ends faulty (Waiting.Among among) (collapse below depth fuel waiting)
  | 0, _, h => h
  | fuel + 1, waiting, h => by
    unfold collapse
    split
    · rename_i last next rest hruns
      have hall := h
      rw [Waiting.Among, hruns] at hall
      obtain ⟨hlast, hall⟩ := List.forall_mem_cons.mp hall
      obtain ⟨hnext, hrest⟩ := List.forall_mem_cons.mp hall
      split
      · refine (ends_join hbelow hnext hlast _).bind fun joined hjoined => ?_
        exact ends_collapse depth fuel (List.forall_mem_cons.mpr ⟨hjoined, hrest⟩)
      · exact h
    · exact h

theorem ends_push (size : Nat) {waiting : Waiting β} (h : waiting.Among among) {run : List β}
    (hrun : ∀ entry ∈ run, among entry) :
    Ends faulty (Waiting.Among among) (push below size waiting run) := by
  unfold push
  split
  · exact List.forall_mem_cons.mpr ⟨hrun, nofun⟩
  · refine (ends_collapse hbelow _ _ h).bind fun next hnext => ?_
    split
    · exact hnext
    · rename_i last rest hruns
      rw [Waiting.Among, hruns] at hnext
      obtain ⟨hlast, hrest⟩ := List.forall_mem_cons.mp hnext
      exact List.forall_mem_cons.mpr ⟨hrun, List.forall_mem_cons.mpr ⟨hlast, hrest⟩⟩

theorem ends_cut (size least : Nat) : ∀ (fuel : Nat) {entries : List β} {waiting : Waiting β},
    waiting.Among among → (∀ entry ∈ entries, among entry) →
      Ends faulty (Waiting.Among among) (cut below size least fuel entries waiting)
  | 0, _, _, h, _ => h
  | _ + 1, [], _, h, _ => h
  | fuel + 1, entry :: rest, waiting, h, hentries => by
    refine (ends_nextRun hbelow least hentries).bind fun ⟨run, left⟩ ⟨hrun, hleft⟩ => ?_
    refine (ends_push hbelow size h hrun).bind fun pushed hpushed => ?_
    exact ends_cut size least fuel hpushed hleft

theorem failsAs_mergeAll : ∀ (fuel : Nat) {waiting : Waiting β}, waiting.Among among →
    FailsAs faulty (mergeAll below fuel waiting)
  | 0, _, _ => trivial
  | fuel + 1, waiting, h => by
    unfold mergeAll
    split
    · rename_i last middle first rest hruns
      rw [Waiting.Among, hruns] at h
      obtain ⟨hlast, h⟩ := List.forall_mem_cons.mp h
      obtain ⟨hmiddle, h⟩ := List.forall_mem_cons.mp h
      obtain ⟨hfirst, hrest⟩ := List.forall_mem_cons.mp h
      split
      · refine (ends_join hbelow hfirst hmiddle _).bind fun joined hjoined => ?_
        exact failsAs_mergeAll fuel
          (List.forall_mem_cons.mpr ⟨hlast, List.forall_mem_cons.mpr ⟨hjoined, hrest⟩⟩)
      · refine (ends_join hbelow hmiddle hlast _).bind fun joined hjoined => ?_
        exact failsAs_mergeAll fuel
          (List.forall_mem_cons.mpr ⟨hjoined, List.forall_mem_cons.mpr ⟨hfirst, hrest⟩⟩)
    · rename_i last first hruns
      rw [Waiting.Among, hruns] at h
      obtain ⟨hlast, h⟩ := List.forall_mem_cons.mp h
      obtain ⟨hfirst, -⟩ := List.forall_mem_cons.mp h
      exact (ends_join hbelow hfirst hlast _).bind fun _ _ => trivial
    · trivial
    · trivial

/-- **Sorting fails in no other way than comparing the entries does.** -/
theorem failsAs_sort {entries : List β} (h : ∀ entry ∈ entries, among entry) :
    FailsAs faulty (sort below entries) := by
  refine (ends_cut hbelow _ _ _ (nofun : Waiting.Among among ⟨[], _⟩) h).bind fun waiting hall => ?_
  exact failsAs_mergeAll hbelow _ hall

end Runs

namespace Samples

open Outcome

variable {α σ : Type} [Scalar α]

/-- **Samples can be put in the order of times that are numbers.** -/
theorem exists_sort (samples : List σ) {times : List (Value α)}
    (h : ∀ time ∈ times, ∃ x, time = .num x) :
    ∃ ordered sorted, sort samples times = .ok (ordered, sorted) := by
  have htimes : ∀ position ∈ List.range (min samples.length times.length),
      ∃ x, times.toArray.getD position .null = .num x := fun position hposition => by
    have hlt : position < times.length := by
      have := List.mem_range.mp hposition
      omega
    obtain ⟨x, hx⟩ := h times[position] (List.getElem_mem hlt)
    exact ⟨x, by simp [hlt, hx]⟩
  have hbelow : Runs.AsksAs (fun _ => False)
      (fun i j => isBelow (times.toArray.getD i .null) (times.toArray.getD j .null))
      (fun position => ∃ x, times.toArray.getD position .null = .num x) := by
    rintro i ⟨x, hx⟩ j ⟨y, hy⟩
    dsimp only
    rw [hx, hy]
    exact .ok _ _
  obtain ⟨sources, hsources⟩ :
      ∃ sources, order (min samples.length times.length) times = .ok sources := by
    unfold order inOrder
    dsimp only
    split
    · exact ⟨_, rfl⟩
    · obtain ⟨sources, hsources, -⟩ := (Runs.failsAs_sort hbelow htimes).exists_ok
      exact ⟨sources, hsources⟩
  rw [sort_eq_map_order, hsources]
  exact ⟨_, _, rfl⟩

end Samples
end SampledProfile
