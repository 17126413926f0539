/-
# What a node reports

The call that a node reports has the id and the hits of the node, and its own time is the hits
times the time between two samples (`Call.reports_of_ofFields`).  Whether a node reports a call at
all depends on the kinds of a few of its fields; where these are as they should be (`HasFrame`) and
numbers are exact, it does (`exists_ofFields`).
-/
import SampledProfile.Call
import SampledProfile.Numeric.Exact
import SampledProfile.Proofs.Outcome

namespace SampledProfile

open Outcome

variable {α : Type} [Scalar α]

/-! ## 1. What a call says -/

omit [Scalar α] in
theorem Scalar.guarded_eq_ok_iff {cause : Option Fault} {x y : α} :
    Scalar.guarded cause x = .ok y ↔ cause = none ∧ x = y := by
  cases cause <;> simp [Scalar.guarded]

/-- Where a product with a number is a number, the other factor is one too. -/
theorem Value.number_of_mul {v product : Value α} {factor x : α}
    (hmul : v.mul (.num factor) = .ok product) (hx : product.number = .ok x) :
    ∃ count, v.number? = some count ∧ x = count * factor := by
  have hscalar : ∀ count : α, (Scalar.mul? count factor).map Value.num = .ok product →
      x = count * factor := by
    intro count h
    obtain ⟨y, hy, rfl⟩ := map_eq_ok.mp h
    obtain ⟨-, rfl⟩ := Scalar.guarded_eq_ok_iff.mp hy
    exact (Except.ok.inj hx).symm
  cases v with
  | null => simp [Value.mul, Value.number?] at hmul
  | bool value => exact ⟨_, rfl, hscalar _ hmul⟩
  | num value => exact ⟨_, rfl, hscalar _ hmul⟩
  | str text =>
    simp only [Value.mul, Value.repeatText] at hmul
    split at hmul
    · obtain ⟨count, -, htext⟩ := bind_eq_ok.mp hmul
      rw [← pure_eq_ok.mp htext] at hx
      cases hx
    · cases hmul
  | list items =>
    simp only [Value.mul, Value.repeatList] at hmul
    split at hmul
    · obtain ⟨count, -, hlist⟩ := bind_eq_ok.mp hmul
      rw [← pure_eq_ok.mp hlist] at hx
      cases hx
    · cases hmul
  | obj fields => simp [Value.mul, Value.number?] at hmul

namespace Fields

variable {node : Fields α} {name : String} {value : Value α}

omit [Scalar α] in
theorem get_of_require (h : node.require name = .ok value) : node.get name = value := by
  unfold Fields.require at h
  unfold Fields.get
  split at h
  · rename_i found hfound
    rw [hfound]
    exact Except.ok.inj h
  · cases h

end Fields

/-- What a call says of the node that reports it. -/
structure Call.Reports (node : Fields α) (sampleTime : α) (call : Call α) : Prop where
  id : call.id = node.get "id"
  hits : call.hits = (node.get "hitCount").orElse (.int 0)
  self : ∃ count, call.hits.number? = some count ∧ call.self = count * sampleTime

/-- **A call has the id and the hits of its node and the time of these hits.** -/
theorem Call.reports_of_ofFields {node : Fields α} {sampleTime : α} {call : Call α}
    (h : Call.ofFields sampleTime node = .ok call) : call.Reports node sampleTime := by
  obtain ⟨record, hrecord, h⟩ := bind_eq_ok.mp h
  obtain ⟨time, htime, h⟩ := bind_eq_ok.mp h
  obtain ⟨self, hself, h⟩ := bind_eq_ok.mp h
  obtain rfl := pure_eq_ok.mp h
  obtain ⟨frame, -, hrecord⟩ := bind_eq_ok.mp hrecord
  obtain ⟨id, hid, hrecord⟩ := bind_eq_ok.mp hrecord
  obtain rfl := pure_eq_ok.mp hrecord
  exact ⟨(Fields.get_of_require hid).symm, rfl, Value.number_of_mul htime hself⟩

/-! ## 2. Nodes that report a call -/

/-- The address is a text, if there is one. -/
def HasAddress (fields : Fields α) : Prop :=
  fields.get "url" = .null ∨ ∃ text, fields.get "url" = .str text

/-- The fields that say which function a node stands for are of the right kinds: the call frame is
an object, addresses are texts, and positions are numbers, as far as they are given. -/
structure HasFrame (node : Fields α) : Prop where
  callFrame : node.get "callFrame" = .null ∨
    ∃ frame, node.get "callFrame" = .obj frame ∧ HasAddress frame
  address : HasAddress node
  line : ∀ value, node.get? "lineNumber" = some value → ∃ x, value = .num x
  column : ∀ value, node.get? "columnNumber" = some value → ∃ x, value = .num x

namespace HasFrame

variable {node other : Fields α}

omit [Scalar α] in
theorem congr (h : HasFrame node)
    (heq : ∀ name ∈ ["callFrame", "url", "lineNumber", "columnNumber"],
      other.get? name = node.get? name) : HasFrame other := by
  simp only [List.forall_mem_cons, List.not_mem_nil, false_imp_iff, implies_true, and_true] at heq
  obtain ⟨hframe, haddress, hline, hcolumn⟩ := heq
  refine ⟨?_, ?_, hline ▸ h.line, hcolumn ▸ h.column⟩
  · simpa only [Fields.get, hframe] using h.callFrame
  · simpa only [HasAddress, Fields.get, haddress] using h.address

theorem exists_addressOf (h : HasFrame node) :
    ∃ address, Frame.addressOf node = .ok address ∧
      (address = .null ∨ ∃ text, address = .str text) := by
  unfold Frame.addressOf
  rcases h.callFrame with hframe | ⟨frame, hframe, haddress⟩
  · simp only [hframe, Value.truthy, Bool.false_eq_true, if_false]
    exact ⟨_, rfl, h.address⟩
  · simp only [hframe]
    split
    · exact ⟨_, rfl, haddress⟩
    · exact ⟨_, rfl, h.address⟩

/-- It can be told whether the node is native. -/
theorem exists_isNative (h : HasFrame node) : ∃ native, Frame.isNative node = .ok native := by
  obtain ⟨address, haddress, hkind⟩ := h.exists_addressOf
  simp only [Frame.isNative, bind_eq_ok, haddress, Except.ok.injEq, exists_eq_left']
  rcases hkind with rfl | ⟨text, rfl⟩
  · exact ⟨false, rfl⟩
  · split
    · exact ⟨_, rfl⟩
    · exact ⟨false, rfl⟩

/-- Where a number can be counted down by one, positions counted from one can be counted from zero. -/
theorem exists_fromOne {name : String}
    (hone : ∀ x : α, ∃ position, Frame.fromOne (.num x) = .ok position)
    (h : ∀ value, node.get? name = some value → ∃ x, value = .num x) :
    ∃ position, Frame.fromOne (node.getD name (.int 0)) = .ok position := by
  obtain ⟨x, hx⟩ : ∃ x, node.getD name (.int 0) = .num x := by
    unfold Fields.getD
    cases hfield : node.get? name with
    | none => exact ⟨_, rfl⟩
    | some value => exact h value hfield
  rw [hx]
  exact hone x

/-- The node reports a frame. -/
theorem exists_frame (hone : ∀ x : α, ∃ position, Frame.fromOne (.num x) = .ok position)
    (h : HasFrame node) : ∃ frame, Frame.ofFields node = .ok frame := by
  obtain ⟨line, hline⟩ := exists_fromOne hone h.line
  obtain ⟨column, hcolumn⟩ := exists_fromOne hone h.column
  simp only [Frame.ofFields, hline, hcolumn]
  rcases h.callFrame with hframe | ⟨frame, hframe, -⟩
  · simp only [hframe, Value.truthy, Bool.false_eq_true, if_false]
    exact ⟨_, rfl⟩
  · simp only [hframe]
    split
    · exact ⟨_, rfl⟩
    · exact ⟨_, rfl⟩

end HasFrame

namespace Exact

variable {node : Fields Rat}

/-- **A node of the right kinds, with an id and a number of hits, reports a call.** -/
theorem exists_ofFields (h : HasFrame node) {id : Value Rat} (hid : node.require "id" = .ok id)
    {count : Rat} (hhits : (node.get "hitCount").orElse (.int 0) = .num count) (time : Rat) :
    ∃ call, Call.ofFields time node = .ok call := by
  obtain ⟨frame, hframe⟩ := h.exists_frame fun x => ⟨_, rfl⟩
  simp only [Call.ofFields, CallRecord.ofFields, hframe, hid, hhits]
  exact ⟨_, rfl⟩

end Exact
end SampledProfile
