/-
# Hits that are integers

The total of all hits is summed up from the first node to the last.  Integers add up to the same in any
order, so the order of the nodes matters to the total only where hits are rounded
(`NodeTable.totalHits_of_perm`).  Hits that are counted from the samples are integers
(`NodeTable.wholeHits_fillHits`).
-/
import Mathlib.Algebra.BigOperators.Group.List.Basic
import Mathlib.Algebra.Ring.Int.Defs
import SampledProfile.Numeric.Number
import SampledProfile.Proofs.NodeTable.Hits

namespace SampledProfile
namespace NodeTable

open Outcome

/-- The hits that a node reports, if it reports any, are an integer. -/
def WholeHits (node : Fields Number) : Prop :=
  (node.get "hitCount").truthy = true →
    ∃ count : Int, (node.get "hitCount").number? = some (.int count)

theorem WholeHits.exists_count {node : Fields Number} (h : WholeHits node) :
    ∃ count : Int, ((node.get "hitCount").orElse (.int 0)).number = .ok (.int count) := by
  unfold Value.orElse
  split
  · rename_i hgiven
    obtain ⟨count, hcount⟩ := h hgiven
    exact ⟨count, by rw [Value.number, hcount]⟩
  · exact ⟨0, rfl⟩

/-! ## 1. Counting -/

theorem countFrom_eq (nodes : List (Fields Number)) (position : Nat)
    (samples : List (Value Number)) :
    countFrom nodes position samples (Scalar.ofInt 0) =
      Scalar.ofInt (samples.countP fun sample => sample.SameName (idIn nodes position)) := by
  have hfold : ∀ (counted : List (Value Number)) (start : Nat),
      counted.foldl (fun count _ => count + Scalar.ofInt 1) (Number.int start) =
        Number.int (start + counted.length : Nat) := by
    intro counted
    induction counted with
    | nil => exact fun _ => rfl
    | cons _ rest ih =>
      intro start
      have hone : (Number.int start : Number) + Scalar.ofInt 1 = Number.int (start + 1 : Nat) := rfl
      rw [List.foldl_cons, hone, ih, List.length_cons, Nat.add_right_comm, Nat.add_assoc]
  rw [List.countP_eq_length_filter]
  exact (hfold _ 0).trans (by rw [Nat.zero_add]; rfl)

/-- Hits that are filled in are integers, if those that are reported are. -/
theorem wholeHits_fillHits {table : NodeTable Number} (hi : table.Indexed) {samples : Value Number}
    (hok : (table.fillHits samples).2 = .ok ()) (h : ∀ node ∈ table.nodes, WholeHits node) :
    ∀ node ∈ (table.fillHits samples).1.nodes, WholeHits node := by
  intro node hnode
  obtain ⟨position, hp, rfl⟩ := List.getElem_of_mem hnode
  have hp' : position < table.nodes.length := (fills_fillHits table samples).length ▸ hp
  rw [← nodeIn_eq_getElem hp, WholeHits, get_fillHits hi hok hp', hitsIn]
  split
  · rw [nodeIn_eq_getElem hp']
    exact h _ (List.getElem_mem hp')
  · exact fun _ => ⟨_, congrArg some (countFrom_eq table.nodes position _)⟩

/-! ## 2. Adding up -/

/-- An integer counts as itself, be it given or not. -/
theorem number_int_orElse (count : Int) :
    ((Value.int count : Value Number).orElse (.int 0)).number = .ok (.int count) := by
  unfold Value.orElse
  split
  · rfl
  · rename_i hzero
    have htruthy : (Value.int count : Value Number).truthy = !Scalar.isZero (Number.int count) := rfl
    have hcount : Scalar.isZero (Number.int count) = true := by simpa [htruthy] using hzero
    have hfinite : (count : Rat) = 0 := by
      simpa [Scalar.isZero, Scalar.exact, Number.exact] using hcount
    rw [show count = 0 by exact_mod_cast hfinite]
    rfl

/-- Integers add up as integers do. -/
theorem totalHits_of_counts {table : NodeTable Number} {counts : List Int}
    (h : List.Forall₂ (fun node count =>
      ((Fields.get node "hitCount").orElse (.int 0)).number = .ok (.int count)) table.nodes counts) :
    table.totalHits = .ok (.int counts.sum) := by
  have hsum : ∀ {nodes : List (Fields Number)} {counts : List Int} (start : Int),
      List.Forall₂ (fun node count =>
        ((Fields.get node "hitCount").orElse (.int 0)).number = .ok (.int count)) nodes counts →
      nodes.foldlM (fun sum node => do
        Scalar.add? sum (← ((node.get "hitCount").orElse (.int 0)).number)) (Number.int start) =
        .ok (.int (start + counts.sum)) := by
    intro nodes counts start hcounts
    induction hcounts generalizing start with
    | nil => exact congrArg (fun sum => Except.ok (Number.int sum)) (Int.add_zero start).symm
    | @cons node count _ _ hcount _ ih =>
      have hadd : Scalar.add? (Number.int start) (Number.int count) =
        .ok (Number.int (start + count)) := rfl
      rw [List.foldlM_cons, hcount, ok_bind, hadd, ok_bind, ih, List.sum_cons, Int.add_assoc]
  exact (hsum 0 h).trans (by rw [Int.zero_add])

/-- **In whatever order nodes stand, their hits add up to the same if they are integers.** -/
theorem totalHits_of_perm {table other : NodeTable Number} (h : other.nodes.Perm table.nodes)
    (hwhole : ∀ node ∈ table.nodes, WholeHits node) : other.totalHits = table.totalHits := by
  have hcounts : ∀ node ∈ table.nodes, ∃ count : Int,
      ((node.get "hitCount").orElse (.int 0)).number = .ok (.int count) := fun node hnode =>
    (hwhole node hnode).exists_count
  choose! count hcount using hcounts
  have htotal : ∀ given : NodeTable Number, given.nodes ⊆ table.nodes →
      given.totalHits = .ok (.int (given.nodes.map count).sum) := fun given hsub => by
    refine totalHits_of_counts ?_
    rw [List.forall₂_map_right_iff, List.forall₂_same]
    exact fun node hnode => hcount node (hsub hnode)
  rw [htotal table (List.Subset.refl _), htotal other h.subset, (h.map count).sum_eq]

end NodeTable
end SampledProfile
