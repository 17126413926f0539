/-
# Hit counts

Hits are reported by the nodes or counted from the samples.  `NodeTable.fillHits` succeeds exactly
when the first node reports some or the samples name known nodes (`fillHits_eq_ok_iff`), and the
field of the hits is all that it changes (`fills_fillHits`).  What a node has there afterwards is
what it reports, or one hit for every sample that names it (`get_fillHits`), so hits are numbers or
still not given, if they were before (`hitsOrNot_fillHits`).

Two tables that are related stay so, and hits are filled into both or into neither, if one hit keeps them
related (`related_fillHits`).
-/
import SampledProfile.Proofs.NodeTable.Index

namespace SampledProfile
namespace NodeTable

open Outcome

variable {α : Type} [Scalar α]

/-! ## 1. Filling in hits -/

/-- The value names a node of the list. -/
def Known (nodes : List (Fields α)) (id : Value α) : Prop :=
  ∃ position < nodes.length, id.SameName (idIn nodes position)

theorem Fills.known_iff {name : String} {table result : NodeTable α} (h : Fills name table result)
    (hname : "id" ≠ name) {id : Value α} : Known result.nodes id ↔ Known table.nodes id := by
  simp only [Known, h.length, h.idIn_eq hname]

theorem fills_hit (table : NodeTable α) (position : Nat) :
    Fills "hitCount" table (table.hit position) := by
  unfold hit
  split
  · exact fills_set _ _ _ _
  · exact .refl _ _

theorem fills_clearHits (table : NodeTable α) : Fills "hitCount" table table.clearHits := by
  refine ⟨rfl, by simp [clearHits], fun position other hne => ?_⟩
  simp only [clearHits, nodeIn, List.getElem?_map]
  cases table.nodes[position]? with
  | none => rfl
  | some node => exact Fields.get?_set_of_ne _ _ hne.symm

theorem fills_countHits : ∀ (samples : List (Value α)) (table : NodeTable α),
    Fills "hitCount" table (table.countHits samples).1
  | [], table => .refl _ table
  | sample :: rest, table => by
    simp only [countHits]
    split
    · exact (fills_hit table _).trans (fills_countHits rest _)
    · exact .refl _ _

theorem fills_fillHits (table : NodeTable α) (samples : Value α) :
    Fills "hitCount" table (table.fillHits samples).1 := by
  unfold fillHits
  split
  · exact .refl _ _
  · split
    · exact .refl _ _
    · split
      · exact .refl _ _
      · split
        · exact (fills_clearHits table).trans (fills_countHits _ _)
        · exact fills_clearHits table

/-- Counting gets to the end exactly when every sample names a node. -/
theorem countHits_eq_ok_iff : ∀ (samples : List (Value α)) {table : NodeTable α}, table.Indexed →
    ((table.countHits samples).2 = .ok () ↔ ∀ sample ∈ samples, Known table.nodes sample)
  | [], table, _ => by simp [countHits]
  | sample :: rest, table, h => by
    have hhit : ∀ position, (table.hit position).Indexed := fun position =>
      (fills_hit table position).indexed (by decide) h
    have hknown : (∃ position, table.find sample "samples" = .ok position) ↔
        Known table.nodes sample := h.exists_find_iff
    simp only [countHits, List.forall_mem_cons]
    cases hfind : table.find sample "samples" with
    | error fault =>
      simp only [reduceCtorEq, false_iff, not_and]
      exact fun hk => by simpa [hfind] using hknown.mpr hk
    | ok position =>
      have hk : Known table.nodes sample := hknown.mp ⟨position, hfind⟩
      rw [countHits_eq_ok_iff rest (hhit position)]
      simp only [(fills_hit table position).known_iff (by decide), hk, true_and]

/-- **Hits can be had exactly when the first node reports some or the samples name known nodes.** -/
theorem fillHits_eq_ok_iff {table : NodeTable α} (h : table.Indexed)
    (samples : Option (List (Value α))) :
    (table.fillHits (Value.ofOption (samples.map .list))).2 = .ok () ↔
      table.nodes ≠ [] ∧ (((nodeIn table.nodes 0).get "hitCount").number?.isSome = true ∨
        ∃ ids, samples = some ids ∧ ∀ id ∈ ids, Known table.nodes id) := by
  unfold fillHits
  cases hnodes : table.nodes with
  | nil => simp
  | cons first rest =>
    have hfirst : nodeIn (first :: rest) 0 = first := rfl
    simp only [hfirst, ne_eq, reduceCtorEq, not_false_eq_true, true_and]
    split
    · rename_i hnum
      simp [hnum]
    · rename_i hnum
      cases samples with
      | none => simp [hnum, Value.ofOption, Value.isNull]
      | some ids =>
        have hclear := fills_clearHits table
        simp only [hnum, Option.map_some, Value.ofOption, Value.isNull, Value.items,
          Bool.false_eq_true, if_false, false_or, Option.some.injEq, exists_eq_left']
        rw [countHits_eq_ok_iff ids (hclear.indexed (by decide) h), ← hnodes]
        simp only [hclear.known_iff (by decide)]

/-- A first node that reports a number of hits leaves the table as it is. -/
theorem fillHits_of_number {table : NodeTable α} (hne : table.nodes ≠ [])
    (hnumber : ((nodeIn table.nodes 0).get "hitCount").number?.isSome = true) (samples : Value α) :
    table.fillHits samples = (table, .ok ()) := by
  cases hnodes : table.nodes with
  | nil => exact absurd hnodes hne
  | cons first rest =>
    have hfirst : nodeIn table.nodes 0 = first := by rw [hnodes]; rfl
    rw [hfirst] at hnumber
    simp only [fillHits, hnodes, hnumber, if_true]

/-! ## 2. How many hits -/

/-- One hit for every sample that names the node at a position, from some count on. -/
def countFrom (nodes : List (Fields α)) (position : Nat) (samples : List (Value α)) (start : α) :
    α :=
  (samples.filter fun sample => sample.SameName (idIn nodes position)).foldl
    (fun count _ => count + Scalar.ofInt 1) start

/-- The hits of a node: what it reports if the first node reports some, what is counted
otherwise. -/
def hitsIn (nodes : List (Fields α)) (samples : List (Value α)) (position : Nat) : Value α :=
  if ((nodeIn nodes 0).get "hitCount").number?.isSome then (nodeIn nodes position).get "hitCount"
  else .num (countFrom nodes position samples (Scalar.ofInt 0))

theorem countFrom_cons (nodes : List (Fields α)) (position : Nat) (sample : Value α)
    (rest : List (Value α)) (start : α) :
    countFrom nodes position (sample :: rest) start =
      if sample.SameName (idIn nodes position) then
        countFrom nodes position rest (start + Scalar.ofInt 1)
      else countFrom nodes position rest start := by
  unfold countFrom
  by_cases hname : sample.SameName (idIn nodes position)
  · simp [hname]
  · simp [hname]

theorem get_clearHits (table : NodeTable α) {position : Nat} (hp : position < table.nodes.length) :
    (nodeIn table.clearHits.nodes position).get "hitCount" = .num (Scalar.ofInt 0) := by
  simp [clearHits, nodeIn, hp, Fields.get, Value.int]

theorem get_hit {table : NodeTable α} {position : Nat} (hp : position < table.nodes.length)
    {count : α} (hcount : (nodeIn table.nodes position).get "hitCount" = .num count)
    (other : Nat) :
    (nodeIn (table.hit position).nodes other).get "hitCount" =
      if position = other then .num (count + Scalar.ofInt 1)
      else (nodeIn table.nodes other).get "hitCount" := by
  have hnumber : ((table.nodeAt position).get "hitCount").number? = some count := by
    rw [nodeAt_eq, hcount]
    rfl
  rw [hit, hnumber, get_set table hp]

/-- Where all samples are counted, every one that names a node adds one to its hits. -/
theorem get_countHits : ∀ (samples : List (Value α)) {table : NodeTable α} {count : Nat → α},
    table.Indexed → (table.countHits samples).2 = .ok () →
    (∀ position < table.nodes.length,
      (nodeIn table.nodes position).get "hitCount" = .num (count position)) →
    ∀ position < table.nodes.length,
      (nodeIn (table.countHits samples).1.nodes position).get "hitCount" =
        .num (countFrom table.nodes position samples (count position))
  | [], _, _, _, _, hcount => hcount
  | sample :: rest, table, count, h, hok, hcount => by
    intro position hp
    cases hfind : table.find sample "samples" with
    | error fault => simp [countHits, hfind] at hok
    | ok named =>
      obtain ⟨hn, hname⟩ := h.find_eq_ok_iff.mp hfind
      have hfills := fills_hit table named
      have hcounted : ∀ other < (table.hit named).nodes.length,
          (nodeIn (table.hit named).nodes other).get "hitCount" =
            .num (if named = other then count named + Scalar.ofInt 1 else count other) := by
        intro other ho
        rw [get_hit hn (hcount named hn), hcount other (hfills.length ▸ ho)]
        split <;> rfl
      have hiff : sample.SameName (idIn table.nodes position) ↔ named = position := by
        constructor
        · exact fun hother => h.eq_of_sameName hn hp (hname.symm.trans hother)
        · rintro rfl
          exact hname
      simp only [countHits, hfind] at hok ⊢
      rw [get_countHits rest (hfills.indexed (by decide) h) hok hcounted position
        (hfills.length ▸ hp), countFrom_cons]
      simp only [countFrom, hfills.idIn_eq (by decide), hiff]
      by_cases heq : named = position
      · rw [if_pos heq, if_pos heq, heq]
      · rw [if_neg heq, if_neg heq]

/-- **The hits that are filled in are those reported, or one for every sample.** -/
theorem get_fillHits {table : NodeTable α} (h : table.Indexed) {samples : Value α}
    (hok : (table.fillHits samples).2 = .ok ()) {position : Nat}
    (hp : position < table.nodes.length) :
    (nodeIn (table.fillHits samples).1.nodes position).get "hitCount" =
      hitsIn table.nodes ((samples.items.toOption).getD []) position := by
  obtain ⟨first, rest, hnodes⟩ : ∃ first rest, table.nodes = first :: rest :=
    List.exists_cons_of_length_pos (Nat.zero_lt_of_lt hp)
  have hfirst : (nodeIn table.nodes 0).get "hitCount" = first.get "hitCount" := by
    rw [hnodes]
    rfl
  rw [hitsIn, hfirst]
  simp only [fillHits, hnodes] at hok ⊢
  split at hok
  · rename_i hreports
    simp [hreports, hnodes]
  · rename_i hreports
    rw [if_neg hreports]
    cases hnull : samples.isNull with
    | true => simp [hnull] at hok
    | false =>
      cases hitems : samples.items with
      | error fault => simp [hnull, hitems] at hok
      | ok ids =>
        simp only [hnull, hitems, Bool.false_eq_true, if_false, if_neg hreports] at hok ⊢
        have hclear := fills_clearHits table
        rw [get_countHits ids (hclear.indexed (by decide) h) hok
          (fun other ho => get_clearHits table (hclear.length ▸ ho)) position (hclear.length ▸ hp)]
        simp only [countFrom, hclear.idIn_eq (by decide), hnodes, Except.toOption, Option.getD_some]

/-! ## 3. Hits as numbers -/

/-- The node has a number of hits, or none at all. -/
def HitsOrNot (node : Fields α) : Prop :=
  node.get "hitCount" = .null ∨ ∃ count, node.get "hitCount" = .num count

/-- Where there are no hits there are zero. -/
theorem HitsOrNot.exists_number {node : Fields α} (h : HitsOrNot node) :
    ∃ count, (node.get "hitCount").orElse (.int 0) = .num count := by
  rcases h with h | ⟨count, h⟩
  · exact ⟨_, by rw [h]; rfl⟩
  · rw [h, Value.orElse]
    split
    · exact ⟨count, rfl⟩
    · exact ⟨_, rfl⟩

theorem hitsOrNot_hit {table : NodeTable α} {position other : Nat}
    (h : HitsOrNot (nodeIn table.nodes other)) :
    HitsOrNot (nodeIn (table.hit position).nodes other) := by
  unfold hit
  split
  · rw [nodeIn_set]
    split
    · exact .inr ⟨_, by rw [Fields.get, Fields.get?_set_self, Option.getD_some]⟩
    · exact h
  · exact h

theorem hitsOrNot_clearHits (table : NodeTable α) (position : Nat) :
    HitsOrNot (nodeIn table.clearHits.nodes position) := by
  simp only [clearHits, nodeIn, List.getElem?_map]
  cases table.nodes[position]? with
  | none => exact .inl rfl
  | some node => exact .inr ⟨Scalar.ofInt 0, by simp [Fields.get, Value.int]⟩

theorem hitsOrNot_countHits : ∀ (samples : List (Value α)) {table : NodeTable α} {position : Nat},
    HitsOrNot (nodeIn table.nodes position) →
    HitsOrNot (nodeIn (table.countHits samples).1.nodes position)
  | [], _, _, h => h
  | sample :: rest, table, _, h => by
    simp only [countHits]
    split
    · exact hitsOrNot_countHits rest (hitsOrNot_hit h)
    · exact h

/-- Hits that are filled in are numbers. -/
theorem hitsOrNot_fillHits {table : NodeTable α} (samples : Value α) {position : Nat}
    (h : HitsOrNot (nodeIn table.nodes position)) :
    HitsOrNot (nodeIn (table.fillHits samples).1.nodes position) := by
  unfold fillHits
  split
  · exact h
  · split
    · exact h
    · split
      · exact h
      · split
        · exact hitsOrNot_countHits _ (hitsOrNot_clearHits table position)
        · exact hitsOrNot_clearHits table position

/-! ## 4. Counting in two tables -/

section Related

variable {R : NodeTable α → NodeTable α → Prop}
  (hhit : ∀ {table other : NodeTable α}, R table other → ∀ sample,
    Alike (fun position place => R (table.hit position) (other.hit place))
      (table.find sample "samples") (other.find sample "samples"))

include hhit

/-- Tables that stay related from one hit to the next are related in the end, and as many samples are
counted in both. -/
theorem related_countHits : ∀ (samples : List (Value α)) {table other : NodeTable α}, R table other →
    R (table.countHits samples).1 (other.countHits samples).1 ∧
      (other.countHits samples).2 = (table.countHits samples).2
  | [], _, _, h => ⟨h, rfl⟩
  | sample :: rest, table, other, h => by
    have hfound := hhit h sample
    rw [countHits, countHits]
    generalize table.find sample "samples" = x at hfound
    generalize other.find sample "samples" = y at hfound
    cases hfound with
    | error fault => exact ⟨h, rfl⟩
    | ok hnext => exact related_countHits rest hnext

/-- Where the first nodes report the same, hits are filled into both tables or into neither. -/
theorem related_fillHits
    (hclear : ∀ {table other : NodeTable α}, R table other → R table.clearHits other.clearHits)
    {table other : NodeTable α} (h : R table other)
    (hfirst : (other.nodes.head?.map fun first => Fields.get first "hitCount") =
      table.nodes.head?.map fun first => Fields.get first "hitCount") (samples : Value α) :
    R (table.fillHits samples).1 (other.fillHits samples).1 ∧
      (other.fillHits samples).2 = (table.fillHits samples).2 := by
  unfold fillHits
  cases hnodes : table.nodes with
  | nil =>
    have hothers : other.nodes = [] := by simpa [hnodes] using hfirst
    rw [hothers]
    exact ⟨h, rfl⟩
  | cons first rest =>
    obtain ⟨first', rest', hothers⟩ : ∃ first' rest', other.nodes = first' :: rest' := by
      cases hothers : other.nodes with
      | nil => simp [hnodes, hothers] at hfirst
      | cons first' rest' => exact ⟨first', rest', rfl⟩
    have hsame : Fields.get first' "hitCount" = Fields.get first "hitCount" := by
      simpa [hnodes, hothers] using hfirst
    rw [hothers]
    simp only [hsame]
    split
    · exact ⟨h, rfl⟩
    · split
      · exact ⟨h, rfl⟩
      · split
        · exact related_countHits hhit _ (hclear h)
        · exact ⟨hclear h, rfl⟩

end Related

end NodeTable
end SampledProfile
