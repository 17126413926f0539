/-
# Sorting loses nothing

Samples are sorted by whatever times they have, and comparisons of times may answer anything: times
that have no value compare with nothing.  Whatever the answers are, and whatever a search makes of
them, the entries are only moved:

* `Runs.perm_of_sort`: what the merging of runs gives is a permutation of the entries;
* `Samples.perm_of_inOrder`: so is what either way of sorting gives;
* `Samples.sort_eq_map_order`: moving to their places, samples and times are arranged in the order
  of the positions;
* `Samples.perm_of_sort`: samples in order are the samples, and times in order are the times.

The entries of several lists are counted together as a multiset, the CONTENT, and every step of a
merge keeps it (`Runs.Merge.Keeps`), also the step at which the merge ends.
-/
import Mathlib.Algebra.Order.Group.Multiset
import Mathlib.Tactic.Abel
import SampledProfile.Proofs.Outcome
import SampledProfile.Proofs.Samples.Cycles

namespace SampledProfile
namespace Runs

open Outcome

variable {β : Type}

/-! ## 1. Runs -/

theorem coe_take_add_coe_drop (count : Nat) (entries : List β) :
    (↑(entries.take count) + ↑(entries.drop count) : Multiset β) = ↑entries := by
  rw [Multiset.coe_add, List.take_append_drop]

theorem content_of_startWhere {below : Order β} {want : Bool} : ∀ {taken : List β} {last : β}
    {entries run rest : List β}, startWhere below want taken last entries = .ok (run, rest) →
    (↑run + ↑rest : Multiset β) = last ::ₘ (↑taken + ↑entries) ∧ run ≠ []
  | taken, last, [], run, rest, h => by
    cases h
    simp
  | taken, last, entry :: entries, run, rest, h => by
    obtain ⟨answer, -, h⟩ := bind_eq_ok.mp h
    split at h
    · obtain ⟨hcontent, hne⟩ := content_of_startWhere h
      refine ⟨?_, hne⟩
      rw [hcontent, ← Multiset.cons_coe, ← Multiset.cons_coe]
      simp only [← Multiset.singleton_add]
      abel
    · cases h
      refine ⟨?_, List.cons_ne_nil _ _⟩
      rw [← Multiset.cons_coe, ← Multiset.cons_coe]
      simp only [← Multiset.singleton_add]
      abel

theorem content_of_naturalRun {below : Order β} {entries run rest : List β}
    (h : naturalRun below entries = .ok (run, rest)) :
    (↑run + ↑rest : Multiset β) = ↑entries ∧ (entries ≠ [] → run ≠ []) := by
  match entries, h with
  | [], h | [_], h =>
    cases h
    simp
  | first :: second :: entries, h =>
    obtain ⟨answer, -, h⟩ := bind_eq_ok.mp h
    split at h
    · obtain ⟨hcontent, hne⟩ := content_of_startWhere h
      refine ⟨?_, fun _ => hne⟩
      rw [hcontent, ← Multiset.cons_coe, ← Multiset.cons_coe, ← Multiset.cons_coe]
      simp only [← Multiset.singleton_add]
      simp only [Multiset.coe_nil]
      abel
    · obtain ⟨⟨turned, left⟩, hstart, h⟩ := bind_eq_ok.mp h
      cases h
      obtain ⟨hcontent, hne⟩ := content_of_startWhere hstart
      refine ⟨?_, fun _ => by simpa using hne⟩
      rw [Multiset.coe_reverse, hcontent, ← Multiset.cons_coe, ← Multiset.cons_coe,
        ← Multiset.cons_coe]
      simp only [← Multiset.singleton_add]
      simp only [Multiset.coe_nil]
      abel

theorem content_of_insert {below : Order β} {run longer : List β} {entry : β}
    (h : insert below run entry = .ok longer) : (↑longer : Multiset β) = entry ::ₘ ↑run := by
  obtain ⟨place, -, h⟩ := bind_eq_ok.mp h
  cases h
  rw [← Multiset.coe_add, ← Multiset.cons_coe, Multiset.add_cons, coe_take_add_coe_drop]

theorem content_of_foldlM_insert {below : Order β} : ∀ {entries run longer : List β},
    entries.foldlM (insert below) run = .ok longer →
      (↑longer : Multiset β) = ↑run + ↑entries ∧ (run ≠ [] → longer ≠ [])
  | [], run, longer, h => by
    cases h
    simp
  | entry :: entries, run, longer, h => by
    rw [List.foldlM_cons] at h
    obtain ⟨next, hnext, h⟩ := bind_eq_ok.mp h
    obtain ⟨hcontent, hne⟩ := content_of_foldlM_insert h
    have hinsert := content_of_insert hnext
    have hnonempty : next ≠ [] := by
      rintro rfl
      exact Multiset.zero_ne_cons hinsert
    refine ⟨?_, fun _ => hne hnonempty⟩
    rw [hcontent, hinsert, ← Multiset.cons_coe, Multiset.cons_add, Multiset.add_cons]

theorem content_of_nextRun {below : Order β} {least : Nat} {entries run rest : List β}
    (h : nextRun below least entries = .ok (run, rest)) :
    (↑run + ↑rest : Multiset β) = ↑entries ∧ (entries ≠ [] → run ≠ []) := by
  obtain ⟨⟨natural, left⟩, hnatural, h⟩ := bind_eq_ok.mp h
  obtain ⟨longer, hlonger, h⟩ := bind_eq_ok.mp h
  cases h
  obtain ⟨hcontent, hne⟩ := content_of_naturalRun hnatural
  obtain ⟨hcontent', hne'⟩ := content_of_foldlM_insert hlonger
  refine ⟨?_, fun hentries => hne' (hne hentries)⟩
  rw [hcontent', add_assoc, coe_take_add_coe_drop, hcontent]

/-! ## 2. Merging two runs -/

/-- The entries that are left and those that were taken. -/
def Merge.content (m : Merge β) : Multiset β := ↑m.taken + ↑m.short + ↑m.long

/-- A merge that goes on has some content, and so has one that is done. -/
def Merge.Keeps {γ : Type} (content : Multiset β) (state : γ → Merge β) :
    Except (Stop β) γ → Prop
  | .ok result => (state result).content = content
  | .error (.merged all _) => (↑all : Multiset β) = content
  | .error (.refused _) => True

namespace Merge

variable {γ δ : Type} {content : Multiset β} {below : Order β} {side : Side} {m : Merge β}

theorem Keeps.bind {state : γ → Merge β} {state' : δ → Merge β} {x : Except (Stop β) γ}
    {f : γ → Except (Stop β) δ} (hx : Keeps content state x)
    (hf : ∀ result, (state result).content = content → Keeps content state' (f result)) :
    Keeps content state' (x >>= f) := by
  match x, hx with
  | .ok result, hx => exact hf result hx
  | .error (.merged all patience), hx => exact hx
  | .error (.refused fault), _ => trivial

/-- An answer changes nothing. -/
theorem Keeps.asked_bind {state : δ → Merge β} {question : Except Fault γ}
    {f : γ → Except (Stop β) δ} (hf : ∀ answer, Keeps content state (f answer)) :
    Keeps content state (asked question >>= f) := by
  cases question with
  | ok answer => exact hf answer
  | error fault => trivial

theorem keeps_takeLong (count : Nat) (h : m.content = content) :
    Keeps content id (m.takeLong count) := by
  have hsplit := coe_take_add_coe_drop count m.long
  have hall : (↑((m.long.take count).reverse ++ m.taken) + ↑m.short + ↑(m.long.drop count) :
      Multiset β) = content := by
    rw [← h, Merge.content, ← hsplit, ← Multiset.coe_add, Multiset.coe_reverse]
    abel
  unfold takeLong
  split
  · rename_i hnil
    rw [hnil, Multiset.coe_nil, add_zero] at hall
    show (↑(_ ++ m.short) : Multiset β) = content
    rw [← Multiset.coe_add, Multiset.coe_reverse, hall]
  · exact hall

theorem keeps_takeShort (count : Nat) (h : m.content = content) :
    Keeps content id (m.takeShort count) := by
  have hsplit := coe_take_add_coe_drop count m.short
  have hall : (↑((m.short.take count).reverse ++ m.taken) + ↑(m.short.drop count) + ↑m.long :
      Multiset β) = content := by
    rw [← h, Merge.content, ← hsplit, ← Multiset.coe_add, Multiset.coe_reverse]
    abel
  unfold takeShort
  split
  · rename_i hnil
    rw [hnil, Multiset.coe_nil, add_zero] at hall
    show (↑(_ ++ m.long) : Multiset β) = content
    rw [← Multiset.coe_add, Multiset.coe_reverse, hall]
  · rename_i last hlast
    show (↑(_ ++ m.long ++ [last]) : Multiset β) = content
    rw [← hall, hlast, ← Multiset.coe_add, ← Multiset.coe_add, Multiset.coe_reverse]
    abel
  · exact hall

theorem keeps_stepwise : ∀ (fuel shorts longs : Nat) {m : Merge β}, m.content = content →
    Keeps content id (stepwise below side fuel shorts longs m)
  | 0, _, _, _, h => h
  | fuel + 1, shorts, longs, m, h => by
    unfold stepwise
    split
    · refine Keeps.asked_bind fun answer => ?_
      split
      · refine (keeps_takeLong 1 h).bind fun next hnext => ?_
        split
        · exact hnext
        · exact keeps_stepwise fuel 0 (longs + 1) hnext
      · refine (keeps_takeShort 1 h).bind fun next hnext => ?_
        split
        · exact hnext
        · exact keeps_stepwise fuel (shorts + 1) 0 hnext
    · exact h

theorem keeps_leapShort (h : m.content = content) :
    Keeps content Prod.fst (leapShort below side m) := by
  unfold leapShort
  split
  · exact h
  · refine Keeps.asked_bind fun count => ?_
    refine (keeps_takeShort count h).bind fun next hnext => ?_
    exact (keeps_takeLong 1 hnext).bind fun last hlast => hlast

theorem keeps_leapLong (h : m.content = content) :
    Keeps content Prod.fst (leapLong below side m) := by
  unfold leapLong
  split
  · exact h
  · refine Keeps.asked_bind fun count => ?_
    refine (keeps_takeLong count h).bind fun next hnext => ?_
    exact (keeps_takeShort 1 hnext).bind fun last hlast => hlast

theorem keeps_leap (h : m.content = content) : Keeps content Prod.fst (leap below side m) := by
  cases side with
  | front =>
    refine (keeps_leapShort h).bind fun next hnext => ?_
    exact (keeps_leapLong hnext).bind fun last hlast => hlast
  | back =>
    refine (keeps_leapLong h).bind fun next hnext => ?_
    exact (keeps_leapShort hnext).bind fun last hlast => hlast

theorem keeps_leaps : ∀ (fuel : Nat) {m : Merge β}, m.content = content →
    Keeps content id (leaps below side fuel m)
  | 0, _, h => h
  | fuel + 1, m, h => by
    refine (keeps_leap h).bind fun ⟨next, first, second⟩ hnext => ?_
    dsimp only
    split
    · exact keeps_leaps fuel hnext
    · exact hnext

theorem keeps_turns : ∀ (fuel : Nat) {m : Merge β}, m.content = content →
    Keeps content id (turns below side fuel m)
  | 0, _, h => h
  | fuel + 1, m, h => by
    refine (keeps_stepwise _ 0 0 h).bind fun next hnext => ?_
    exact (keeps_leaps _ hnext).bind fun last hlast => keeps_turns fuel hlast

theorem content_of_all {all : List β} {patience : Nat}
    (h : Merge.all below side m = .ok (all, patience)) : (↑all : Multiset β) = m.content := by
  have hkeeps : Keeps m.content id (do
      let m ← m.takeLong 1
      let m ← m.takeShort 0
      turns below side (m.short.length + m.long.length) m) := by
    refine (keeps_takeLong 1 rfl).bind fun next hnext => ?_
    exact (keeps_takeShort 0 hnext).bind fun last hlast => keeps_turns _ hlast
  unfold Merge.all at h
  dsimp only at h
  split at h
  · rename_i last hlast
    rw [hlast] at hkeeps
    cases h
    rw [← Multiset.coe_add, ← Multiset.coe_add, Multiset.coe_reverse]
    exact hkeeps
  · rename_i merged _ hmerged
    rw [hmerged] at hkeeps
    cases h
    exact hkeeps
  · cases h

end Merge

theorem content_of_merge {below : Order β} {left right all : List β} {patience next : Nat}
    (h : merge below left right patience = .ok (all, next)) :
    (↑all : Multiset β) = ↑left + ↑right := by
  unfold merge at h
  split at h
  · cases h
    simp
  · rename_i head tail
    obtain ⟨before, -, h⟩ := bind_eq_ok.mp h
    have hleft := coe_take_add_coe_drop before left
    dsimp only at h
    split at h
    · cases h
      exact (Multiset.coe_add _ _).symm
    · obtain ⟨count, -, h⟩ := bind_eq_ok.mp h
      have hright := coe_take_add_coe_drop count (head :: tail)
      -- what lies between is the rest of the one run and the start of the other
      have hdone : ∀ middle : List β,
          (↑middle : Multiset β) = ↑(left.drop before) + ↑((head :: tail).take count) →
          (↑(left.take before ++ middle ++ (head :: tail).drop count) : Multiset β) =
            ↑left + ↑(head :: tail) := fun middle hmiddle => by
        rw [← Multiset.coe_add, ← Multiset.coe_add, hmiddle, ← hleft, ← hright]
        abel
      split at h
      · rename_i hzero
        cases h
        exact hdone _ (by simp [hzero])
      · split at h
        · obtain ⟨⟨middle, last⟩, hall, h⟩ := bind_eq_ok.mp h
          cases h
          refine hdone _ ?_
          rw [Merge.content_of_all hall, Merge.content]
          simp
        · obtain ⟨⟨reversed, last⟩, hall, h⟩ := bind_eq_ok.mp h
          cases h
          refine hdone _ ?_
          rw [Multiset.coe_reverse, Merge.content_of_all hall, Merge.content]
          simp only [Multiset.coe_nil, Multiset.coe_reverse]
          abel

/-! ## 3. Merging all runs -/

/-- The entries of all runs that wait. -/
def Waiting.content (waiting : Waiting β) : Multiset β :=
  (waiting.runs.map fun run => (↑run.entries : Multiset β)).sum

section All

variable {below : Order β} {waiting next : Waiting β}

theorem content_of_join {left right joined : Pending β} {patience last : Nat}
    (h : join below left right patience = .ok (joined, last)) :
    (↑joined.entries : Multiset β) = ↑left.entries + ↑right.entries := by
  obtain ⟨⟨entries, patience⟩, hmerge, h⟩ := bind_eq_ok.mp h
  cases h
  exact content_of_merge hmerge

theorem content_of_collapse {depth : Nat} : ∀ (fuel : Nat) {waiting next : Waiting β},
    collapse below depth fuel waiting = .ok next →
      next.content = waiting.content ∧ (waiting.runs ≠ [] → next.runs ≠ [])
  | 0, waiting, next, h => by
    cases h
    exact ⟨rfl, id⟩
  | fuel + 1, waiting, next, h => by
    unfold collapse at h
    split at h
    · rename_i last before rest hruns
      split at h
      · obtain ⟨⟨joined, patience⟩, hjoin, h⟩ := bind_eq_ok.mp h
        obtain ⟨hcontent, hne⟩ := content_of_collapse fuel h
        refine ⟨?_, fun _ => hne (List.cons_ne_nil _ _)⟩
        rw [hcontent, Waiting.content, Waiting.content, hruns, List.map_cons, List.sum_cons,
          content_of_join hjoin]
        simp only [List.map_cons, List.sum_cons]
        abel
      · cases h
        exact ⟨rfl, id⟩
    · cases h
      exact ⟨rfl, id⟩

theorem content_of_push {size : Nat} {run : List β}
    (h : push below size waiting run = .ok next) : next.content = ↑run + waiting.content := by
  unfold push at h
  split at h
  · rename_i hruns
    cases h
    simp [Waiting.content, hruns]
  · rename_i last rest hruns
    obtain ⟨collapsed, hcollapse, h⟩ := bind_eq_ok.mp h
    obtain ⟨hcontent, hne⟩ := content_of_collapse _ hcollapse
    split at h
    · rename_i hnil
      exact absurd hnil (hne (by simp [hruns]))
    · rename_i last' rest' hruns'
      cases h
      rw [← hcontent, Waiting.content, Waiting.content, hruns']
      simp only [List.map_cons, List.sum_cons]

/-- There is a turn for every run, as each has an entry at least. -/
theorem content_of_cut {size least : Nat} : ∀ (fuel : Nat) {entries : List β}
    {waiting next : Waiting β}, entries.length ≤ fuel →
    cut below size least fuel entries waiting = .ok next →
      next.content = waiting.content + ↑entries
  | 0, entries, waiting, next, hfuel, h => by
    cases h
    obtain rfl : entries = [] := List.length_eq_zero_iff.mp (Nat.le_zero.mp hfuel)
    simp
  | _ + 1, [], waiting, next, _, h => by
    cases h
    simp
  | fuel + 1, entry :: entries, waiting, next, hfuel, h => by
    obtain ⟨⟨run, rest⟩, hrun, h⟩ := bind_eq_ok.mp h
    obtain ⟨pushed, hpush, h⟩ := bind_eq_ok.mp h
    obtain ⟨hcontent, hne⟩ := content_of_nextRun hrun
    have hshorter : rest.length ≤ fuel := by
      have hcard := congrArg Multiset.card hcontent
      have hpositive := List.length_pos_iff.mpr (hne (List.cons_ne_nil _ _))
      simp only [Multiset.card_add, Multiset.coe_card, List.length_cons] at hcard hfuel
      omega
    rw [content_of_cut fuel hshorter h, content_of_push hpush, ← hcontent]
    abel

theorem content_of_mergeAll : ∀ (fuel : Nat) {waiting : Waiting β} {all : List β},
    mergeAll below fuel waiting = .ok all → (↑all : Multiset β) = waiting.content
  | 0, waiting, all, h => by
    cases h
    rw [Waiting.content, ← List.sum_reverse, ← List.map_reverse]
    induction waiting.runs.reverse with
    | nil => rfl
    | cons run rest ih =>
      rw [List.flatMap_cons, ← Multiset.coe_add, ih]
      rfl
  | fuel + 1, waiting, all, h => by
    unfold mergeAll at h
    split at h
    · rename_i last middle first rest hruns
      split at h
      · obtain ⟨⟨joined, patience⟩, hjoin, h⟩ := bind_eq_ok.mp h
        rw [content_of_mergeAll fuel h, Waiting.content, Waiting.content, hruns]
        simp only [List.map_cons, List.sum_cons, content_of_join hjoin]
        abel
      · obtain ⟨⟨joined, patience⟩, hjoin, h⟩ := bind_eq_ok.mp h
        rw [content_of_mergeAll fuel h, Waiting.content, Waiting.content, hruns]
        simp only [List.map_cons, List.sum_cons, content_of_join hjoin]
        abel
    · rename_i last first hruns
      obtain ⟨⟨joined, patience⟩, hjoin, h⟩ := bind_eq_ok.mp h
      cases h
      rw [content_of_join hjoin, Waiting.content, hruns]
      simp [add_comm]
    · rename_i only hruns
      cases h
      simp [Waiting.content, hruns]
    · rename_i hruns
      cases h
      simp [Waiting.content, hruns]

/-- **Sorting by runs gives a permutation, whatever the comparisons say.** -/
theorem perm_of_sort {entries sorted : List β} (h : sort below entries = .ok sorted) :
    sorted.Perm entries := by
  obtain ⟨waiting, hcut, h⟩ := bind_eq_ok.mp h
  rw [← Multiset.coe_eq_coe, content_of_mergeAll _ h, content_of_cut _ (Nat.le_refl _) hcut]
  simp [Waiting.content]

end All

end Runs

/-! ## 4. Samples with their times -/

namespace Samples

open Outcome

variable {β σ α : Type}

theorem perm_insert (below : β → β → Bool) (entry : β) : ∀ entries : List β,
    (insert below entry entries).Perm (entry :: entries)
  | [] => .refl _
  | last :: rest => by
    rw [insert]
    split
    · exact ((perm_insert below entry rest).cons last).trans (.swap entry last rest)
    · exact .refl _

theorem perm_stableSort (below : β → β → Bool) (entries : List β) :
    (stableSort below entries).Perm entries := by
  have hfold : ∀ (entries sorted : List β),
      (entries.foldl (fun sorted entry => insert below entry sorted) sorted).Perm
        (entries ++ sorted) := by
    intro entries
    induction entries with
    | nil => exact fun sorted => .refl _
    | cons entry rest ih =>
      intro sorted
      refine (ih (insert below entry sorted)).trans ?_
      exact ((perm_insert below entry sorted).append_left rest).trans List.perm_middle
  exact (List.reverse_perm _).trans (by simpa using hfold entries [])

theorem map_fst_zip_eq : ∀ (xs : List σ) (ys : List β),
    (xs.zip ys).map Prod.fst = xs.take (min xs.length ys.length)
  | [], _ => by simp
  | _ :: _, [] => by simp
  | x :: xs, y :: ys => by simp [map_fst_zip_eq xs ys]

theorem map_snd_zip_eq : ∀ (xs : List σ) (ys : List β),
    (xs.zip ys).map Prod.snd = ys.take (min xs.length ys.length)
  | [], _ => by simp
  | _ :: _, [] => by simp
  | x :: xs, y :: ys => by simp [map_snd_zip_eq xs ys]

variable [Scalar α]

theorem perm_of_inOrder {value : β → Value α} {below : β → β → Except Fault Bool}
    {entries sorted : List β} (h : inOrder value below entries = .ok sorted) :
    sorted.Perm entries := by
  unfold inOrder at h
  split at h
  · cases h
    exact perm_stableSort _ entries
  · exact Runs.perm_of_sort h

theorem perm_of_order {count : Nat} {times : List (Value α)} {sources : List Nat}
    (h : order count times = .ok sources) : sources.Perm (List.range count) :=
  perm_of_inOrder h

/-- **Samples and times are arranged in the order of the positions, and never is an order without
an end.** -/
theorem sort_eq_map_order (samples : List σ) (times : List (Value α)) :
    sort samples times =
      (order (min samples.length times.length) times).map (Moving.arranged samples times) := by
  unfold sort
  cases horder : order (min samples.length times.length) times with
  | error fault => rfl
  | ok sources =>
    obtain ⟨moved, hmoved, harranged⟩ := Moving.exists_settle_eq_arranged (perm_of_order horder)
    simp only [ok_bind, hmoved]
    exact congrArg Except.ok harranged

/-- What the samples are does not matter for where they go. -/
theorem arranged_map {τ ρ : Type} (g : σ → τ) (samples : List σ) (times : List ρ)
    (sources : List Nat) :
    Moving.arranged (samples.map g) times sources =
      ((Moving.arranged samples times sources).1.map g, (Moving.arranged samples times sources).2) := by
  have hpairs : (sources.filterMap fun position => ((samples.map g).zip times)[position]?) =
      (sources.filterMap fun position => (samples.zip times)[position]?).map (Prod.map g id) := by
    rw [List.map_filterMap, List.zip_map_left]
    simp only [List.getElem?_map]
  unfold Moving.arranged
  rw [hpairs]
  simp [Function.comp_def]

theorem sort_map {τ : Type} (g : σ → τ) (samples : List σ) (times : List (Value α)) :
    sort (samples.map g) times =
      (sort samples times).map fun sorted => (sorted.1.map g, sorted.2) := by
  rw [sort_eq_map_order, sort_eq_map_order, List.length_map]
  cases order (min samples.length times.length) times with
  | error fault => rfl
  | ok sources => exact congrArg Except.ok (arranged_map g samples times sources)

theorem filterMap_getElem?_range (entries : List β) :
    ((List.range entries.length).filterMap fun position => entries[position]?) = entries := by
  refine List.ext_getElem? fun index => ?_
  rw [Moving.getElem?_filterMap fun position hposition => by simpa using hposition]
  by_cases hindex : index < entries.length
  · simp [hindex]
  · simp [hindex]

/-- Side by side, samples and times in order are those that were given. -/
theorem perm_of_arranged {samples : List σ} {times : List β} {sources : List Nat}
    (h : sources.Perm (List.range (min samples.length times.length))) :
    (sources.filterMap fun position => (samples.zip times)[position]?).Perm
      (samples.zip times) := by
  have hperm := h.filterMap fun position => (samples.zip times)[position]?
  rwa [← List.length_zip, filterMap_getElem?_range] at hperm

/-- **Samples and times that are put in order are the same samples and the same times.** -/
theorem perm_of_sort {samples sorted : List σ} {times ordered : List (Value α)}
    (h : sort samples times = .ok (sorted, ordered)) :
    sorted.Perm samples ∧ ordered.Perm times := by
  rw [sort_eq_map_order] at h
  obtain ⟨sources, hsources, h⟩ := map_eq_ok.mp h
  cases h
  have hperm := perm_of_arranged (perm_of_order hsources)
  generalize sources.filterMap (fun position => (samples.zip times)[position]?) = pairs at hperm ⊢
  have hlength : pairs.length = min samples.length times.length := by
    rw [hperm.length_eq, List.length_zip]
  constructor
  · have hfst := hperm.map Prod.fst
    rw [map_fst_zip_eq, ← hlength] at hfst
    exact (hfst.append_right _).trans (.of_eq (List.take_append_drop _ _))
  · have hsnd := hperm.map Prod.snd
    rw [map_snd_zip_eq, ← hlength] at hsnd
    exact (hsnd.append_right _).trans (.of_eq (List.take_append_drop _ _))

end Samples
end SampledProfile
