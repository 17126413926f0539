/-
# The order of the times is the stable one

Numbers that have a value are in a line, the infinities at its ends (`Magnitude.rank`).

* Sorting by insertion is stable sorting wherever entries compare by their places in a line
  (`Samples.stableSort_eq_mergeSort`).  Two sorts of entries that may be equal are told apart by the
  positions which the entries came from: with these no two entries are equal, and there is one order.
* **Samples and times with values come out as the stable sort of the pairs, and what follows the
  pairs stays as it is** (`Samples.sort_eq_mergeSort`).
-/
import Mathlib.Algebra.Order.Ring.Rat
import Mathlib.Data.List.Sort
import Mathlib.Order.WithBot
import SampledProfile.Numeric.Number
import SampledProfile.Proofs.Samples.Permutation

namespace SampledProfile

/-! ## 1. A line of numbers -/

namespace Magnitude

/-- The place of a value in the line of all values; what has no value is put at its start. -/
def rank : Magnitude → WithBot (WithTop Rat)
  | .finite value => ((value : WithTop Rat) : WithBot (WithTop Rat))
  | .infinite false => ((⊤ : WithTop Rat) : WithBot (WithTop Rat))
  | .infinite true => ⊥
  | .undefined _ => ⊥

/-- Values are compared by their places. -/
theorem lt_eq_decide_rank {a b : Magnitude} (ha : a.isDefined = true) (hb : b.isDefined = true) :
    a.lt b = decide (a.rank < b.rank) := by
  rcases a with a | (_ | _) | _ <;> rcases b with b | (_ | _) | _ <;>
    simp_all [lt, rank, isDefined, WithBot.bot_lt_coe, WithBot.coe_lt_coe, WithTop.coe_lt_coe,
      -WithBot.coe_top]

end Magnitude

namespace Samples

/-! ## 2. Stable insertion -/

section Insertion

variable {β γ : Type}

/-- Insertion sees of an entry what the order sees of it. -/
theorem map_insert {below : β → β → Bool} {other : γ → γ → Bool} (f : β → γ)
    (h : ∀ a b, below a b = other (f a) (f b)) (entry : β) : ∀ entries : List β,
    (insert below entry entries).map f = insert other (f entry) (entries.map f)
  | [] => rfl
  | last :: rest => by
    simp only [insert, List.map_cons, h entry last]
    split
    · rw [List.map_cons, map_insert f h entry rest]
    · rfl

theorem map_stableSort {below : β → β → Bool} {other : γ → γ → Bool} (f : β → γ)
    (h : ∀ a b, below a b = other (f a) (f b)) (entries : List β) :
    (stableSort below entries).map f = stableSort other (entries.map f) := by
  have hfold : ∀ (entries sorted : List β),
      (entries.foldl (fun sorted entry => insert below entry sorted) sorted).map f =
        (entries.map f).foldl (fun sorted entry => insert other entry sorted) (sorted.map f) := by
    intro entries
    induction entries with
    | nil => exact fun sorted => rfl
    | cons entry rest ih =>
      intro sorted
      rw [List.foldl_cons, ih, map_insert f h, List.map_cons, List.foldl_cons]
  rw [stableSort, List.map_reverse, hfold, stableSort, List.map_nil]

variable {below : β → β → Bool} {R : β → β → Prop}

/-- An entry is inserted in order, if it may follow all that it is not below. -/
theorem pairwise_insert (htrans : ∀ a b c, R a b → R b c → R a c) {entry : β} :
    ∀ {sorted : List β},
      (∀ other ∈ sorted, if below entry other = true then R entry other else R other entry) →
      sorted.Pairwise (fun a b => R b a) →
      (insert below entry sorted).Pairwise fun a b => R b a
  | [], _, _ => List.pairwise_singleton _ _
  | last :: rest, hentry, h => by
    obtain ⟨hlast, hrest⟩ := List.pairwise_cons.mp h
    obtain ⟨hbefore, hothers⟩ := List.forall_mem_cons.mp hentry
    rw [insert]
    split
    · rename_i hbelow
      rw [if_pos hbelow] at hbefore
      refine List.pairwise_cons.mpr ⟨fun other hother => ?_, pairwise_insert htrans hothers hrest⟩
      rcases List.mem_cons.mp ((perm_insert below entry rest).mem_iff.mp hother) with rfl | hmem
      · exact hbefore
      · exact hlast other hmem
    · rename_i hnot
      rw [if_neg hnot] at hbefore
      refine List.pairwise_cons.mpr ⟨List.forall_mem_cons.mpr ⟨hbefore, fun other hother => ?_⟩, h⟩
      exact htrans _ _ _ (hlast other hother) hbefore

/-- **Entries are put in order, if of any two the later one may follow where it is not below.** -/
theorem pairwise_stableSort (htrans : ∀ a b c, R a b → R b c → R a c) {entries : List β}
    (h : entries.Pairwise fun earlier later =>
      if below later earlier = true then R later earlier else R earlier later) :
    (stableSort below entries).Pairwise R := by
  have hfold : ∀ {rest sorted : List β}, sorted.Pairwise (fun a b => R b a) →
      (∀ entry ∈ rest, ∀ other ∈ sorted,
        if below entry other = true then R entry other else R other entry) →
      rest.Pairwise (fun earlier later =>
        if below later earlier = true then R later earlier else R earlier later) →
      (rest.foldl (fun sorted entry => insert below entry sorted) sorted).Pairwise
        fun a b => R b a := by
    intro rest
    induction rest with
    | nil => exact fun hsorted _ _ => hsorted
    | cons entry rest ih =>
      intro sorted hsorted hacross hrest
      obtain ⟨hentry, hothers⟩ := List.forall_mem_cons.mp hacross
      obtain ⟨hlater, hrest⟩ := List.pairwise_cons.mp hrest
      refine ih (pairwise_insert htrans hentry hsorted) (fun other hother present hpresent => ?_)
        hrest
      rcases List.mem_cons.mp ((perm_insert below entry sorted).mem_iff.mp hpresent) with
        rfl | hmem
      · exact hlater other hother
      · exact hothers other hother present hmem
  rw [stableSort, List.pairwise_reverse]
  exact hfold List.Pairwise.nil (fun _ _ => nofun) h

end Insertion

section Keys

variable {β κ : Type} [LinearOrder κ] {below : β → β → Bool} {key : β → κ}

/-- Entries with their positions are told apart by the positions. -/
theorem zipIdx_antisymm {le : β → β → Bool} {entries : List β} {p q : β × Nat}
    (hp : p ∈ entries.zipIdx) (hq : q ∈ entries.zipIdx) (hle : List.zipIdxLE le p q = true)
    (hge : List.zipIdxLE le q p = true) : p = q := by
  obtain ⟨a, i⟩ := p
  obtain ⟨b, j⟩ := q
  obtain rfl : i = j := by
    unfold List.zipIdxLE at hle hge
    grind
  have ha : entries[i]? = some a := List.mem_zipIdx_iff_getElem?.mp hp
  have hb : entries[i]? = some b := List.mem_zipIdx_iff_getElem?.mp hq
  rw [Option.some.inj (ha.symm.trans hb)]

/-- **Where entries compare by their places in a line, insertion is the stable sort.** -/
theorem stableSort_eq_mergeSort {entries : List β}
    (h : ∀ a ∈ entries, ∀ b ∈ entries, below a b = decide (key a < key b)) :
    stableSort below entries = entries.mergeSort fun a b => decide (key a ≤ key b) := by
  let le : β → β → Bool := fun a b => decide (key a ≤ key b)
  have htrans : ∀ a b c, le a b → le b c → le a c := fun a b c hab hbc =>
    decide_eq_true ((of_decide_eq_true hab).trans (of_decide_eq_true hbc))
  have htotal : ∀ a b, le a b || le b a := fun a b => by simpa [le] using le_total (key a) (key b)
  have hdecorated := List.zipIdxLE_trans htrans
  have hinserted : (stableSort (fun p q => below p.1 q.1) entries.zipIdx).Pairwise
      fun p q => List.zipIdxLE le p q = true := by
    refine pairwise_stableSort (fun a b c => hdecorated a b c) ?_
    refine List.pairwise_iff_getElem.mpr fun i j hi hj hij => ?_
    simp only [List.length_zipIdx] at hi hj
    simp only [List.getElem_zipIdx, h _ (List.getElem_mem hj) _ (List.getElem_mem hi)]
    split
    · rename_i hlt
      have hlt := of_decide_eq_true hlt
      simp [List.zipIdxLE, le, hlt.le, hlt.not_ge]
    · rename_i hge
      have hge : key entries[i] ≤ key entries[j] := by simpa using hge
      simp [List.zipIdxLE, le, hge, hij.le]
  have hmerged := List.pairwise_mergeSort hdecorated (List.zipIdxLE_total htotal) entries.zipIdx
  have hinsertedPerm := perm_stableSort (fun p q : β × Nat => below p.1 q.1) entries.zipIdx
  have hmergedPerm := List.mergeSort_perm entries.zipIdx (List.zipIdxLE le)
  have heq : stableSort (fun p q => below p.1 q.1) entries.zipIdx =
      entries.zipIdx.mergeSort (List.zipIdxLE le) :=
    (hinsertedPerm.trans hmergedPerm.symm).eq_of_pairwise
      (fun p q hp hq => zipIdx_antisymm (hinsertedPerm.mem_iff.mp hp) (hmergedPerm.mem_iff.mp hq))
      hinserted hmerged
  calc stableSort below entries
      = stableSort below (entries.zipIdx.map Prod.fst) := by rw [List.zipIdx_map_fst]
    _ = (stableSort (fun p q => below p.1 q.1) entries.zipIdx).map Prod.fst :=
        (map_stableSort Prod.fst (fun _ _ => rfl) _).symm
    _ = (entries.zipIdx.mergeSort (List.zipIdxLE le)).map Prod.fst := by rw [heq]
    _ = entries.mergeSort le := List.mergeSort_zipIdx

end Keys

/-! ## 3. Samples and times -/

variable {α σ : Type} [Scalar α]

/-- The place of a time in the line of all values. -/
def rankOf (time : Value α) : WithBot (WithTop Rat) :=
  (time.number?.map fun x => (Scalar.exact x).rank).getD ⊥

/-- Times with values are compared by their places. -/
theorem isBelow_eq_decide_rankOf {a b : Value α} (ha : isDefined a = true)
    (hb : isDefined b = true) : isBelow a b = .ok (decide (rankOf a < rankOf b)) := by
  unfold isDefined at ha hb
  cases hx : a.number? with
  | none => simp [hx] at ha
  | some x =>
    cases hy : b.number? with
    | none => simp [hy] at hb
    | some y =>
      have hbelow : Value.below? a b = some (Scalar.lt x y) := by
        cases a <;> cases b <;> simp_all [Value.below?, Value.number?]
      rw [isBelow, hbelow, rankOf, rankOf, hx, hy]
      refine congrArg Except.ok (Magnitude.lt_eq_decide_rank ?_ ?_)
      · simpa [hx] using ha
      · simpa [hy] using hb

/-- Positions of times with values are put in the stable order of the times. -/
theorem order_eq_mergeSort {count : Nat} {times : List (Value α)}
    (h : ∀ position < count, isDefined (times.toArray.getD position .null) = true) :
    order count times = .ok ((List.range count).mergeSort fun i j =>
      decide (rankOf (times.toArray.getD i .null) ≤ rankOf (times.toArray.getD j .null))) := by
  unfold order inOrder
  rw [if_pos (List.all_eq_true.mpr fun position hp => h position (List.mem_range.mp hp))]
  refine congrArg Except.ok (stableSort_eq_mergeSort fun i hi j hj => ?_)
  dsimp only
  rw [isBelow_eq_decide_rankOf (h i (List.mem_range.mp hi)) (h j (List.mem_range.mp hj))]
  rfl

/-- The pairs of samples and times in the stable order of the times. -/
def chronological (samples : List σ) (times : List (Value α)) : List (σ × Value α) :=
  (samples.zip times).mergeSort fun p q => decide (rankOf p.2 ≤ rankOf q.2)

/-- Looking the pairs up in the order of the positions is sorting the pairs. -/
theorem exists_order_eq_chronological (samples : List σ) {times : List (Value α)}
    (h : ∀ time ∈ times.take samples.length, isDefined time = true) :
    ∃ sources, order (min samples.length times.length) times = .ok sources ∧
      (sources.filterMap fun position => (samples.zip times)[position]?) =
        chronological samples times := by
  let look (position : Nat) : Option (σ × Value α) := (samples.zip times)[position]?
  let rank (entry : Option (σ × Value α)) := (entry.map fun p => rankOf p.2).getD ⊥
  have hentries : ∀ position < min samples.length times.length, ∃ entry, look position = some entry ∧
      times.toArray.getD position .null = entry.2 ∧ isDefined entry.2 = true := by
    intro position hp
    have hget : look position = some _ := List.getElem?_eq_getElem (by rwa [List.length_zip])
    obtain ⟨-, htime⟩ := List.getElem?_zip_eq_some.mp hget
    refine ⟨_, hget, by simp [htime], h _ (List.mem_of_getElem? (i := position) ?_)⟩
    rw [List.getElem?_take_of_lt (by omega), htime]
  refine ⟨_, order_eq_mergeSort fun position hp => ?_, ?_⟩
  · obtain ⟨entry, -, htime, hdefined⟩ := hentries position hp
    rwa [htime]
  · have hall : (List.range (min samples.length times.length)).map look =
        (samples.zip times).map some := by
      refine List.ext_getElem? fun position => ?_
      by_cases hp : position < min samples.length times.length <;> simp [look, hp]
    have hlook : ((List.range (min samples.length times.length)).mergeSort fun i j => decide
          (rankOf (times.toArray.getD i .null) ≤ rankOf (times.toArray.getD j .null))).map look =
        (chronological samples times).map some := by
      rw [List.map_mergeSort (s := fun p q => decide (rank p ≤ rank q)), hall]
      · exact (List.map_mergeSort (f := some) fun _ _ _ _ => rfl).symm
      · intro i hi j hj
        obtain ⟨p, hp, hpTime, -⟩ := hentries i (List.mem_range.mp hi)
        obtain ⟨q, hq, hqTime, -⟩ := hentries j (List.mem_range.mp hj)
        simp [rank, hp, hq, hpTime, hqTime]
    have hpairs := congrArg (List.filterMap id) hlook
    rwa [List.filterMap_map, List.filterMap_map, Function.id_comp, Function.id_comp,
      List.filterMap_some] at hpairs

theorem length_chronological (samples : List σ) (times : List (Value α)) :
    (chronological samples times).length = min samples.length times.length := by
  rw [chronological, (List.mergeSort_perm _ _).length_eq, List.length_zip]

/-- **Samples and times with values: the cycles come to an end, the first pairs, as many as both
lists have, are their stable sort by time, and all that follows stays as it is.** -/
theorem sort_eq_mergeSort (samples : List σ) {times : List (Value α)}
    (h : ∀ time ∈ times.take samples.length, isDefined time = true) :
    let count := min samples.length times.length
    let sorted := (samples.zip times).mergeSort fun p q => decide (rankOf p.2 ≤ rankOf q.2)
    sort samples times =
      .ok (sorted.map Prod.fst ++ samples.drop count, sorted.map Prod.snd ++ times.drop count) := by
  obtain ⟨sources, horder, hpairs⟩ := exists_order_eq_chronological samples h
  rw [sort_eq_map_order, horder]
  refine congrArg Except.ok ?_
  unfold Moving.arranged
  dsimp only
  rw [hpairs, length_chronological]
  rfl

/-- Integers are in line as they are. -/
theorem rankOf_le_rankOf_int {a b : Int} :
    rankOf (.int a : Value Number) ≤ rankOf (.int b : Value Number) ↔ a ≤ b := by
  show ((((a : Rat) : WithTop Rat) : WithBot (WithTop Rat)) ≤ ((b : Rat) : WithTop Rat)) ↔ a ≤ b
  rw [WithBot.coe_le_coe, WithTop.coe_le_coe, Rat.intCast_le_intCast]

/-- Two times that come twice, and a sample more than there are times. -/
theorem sort_eq_mergeSort_ties :
    let samples := ["a", "b", "c", "d", "e", "f"]
    let times : List (Value Number) := [.int 7, .int 3, .int 7, .int 1, .int 3]
    (∀ time ∈ times.take samples.length, isDefined time = true) ∧
      sort samples times = .ok (["d", "b", "e", "a", "c", "f"],
        [.int 1, .int 3, .int 3, .int 7, .int 7]) := by
  refine ⟨by decide +kernel, (sort_eq_mergeSort _ (by decide +kernel)).trans ?_⟩
  simp [List.mergeSort, List.MergeSort.Internal.splitInTwo, rankOf_le_rankOf_int]

end Samples
end SampledProfile
