/-
# Replays of times that are read exactly

The id of a collection may fail to equal itself only if it is a number without a value, and there is
none among the rationals.  So a sound model whose numbers are read exactly has a replay of every
window, with no more to be asked (`Model.Sound.exists_replay`).
-/
import SampledProfile.Numeric.Exact
import SampledProfile.Proofs.Replay.Windows

namespace SampledProfile

open Outcome

/-- A name that is a number read exactly equals itself, and so do all others. -/
theorem Value.equals_self_of_key {id : Value Rat} {key : Key} (h : id.key = .ok key) :
    id.equals id = true := by
  cases id with
  | list items => cases h
  | obj fields => cases h
  | num value => simp [Value.equals, Value.number?, Scalar.same, Magnitude.same, Scalar.exact]
  | bool value => simp [Value.equals, Value.number?, Scalar.same, Magnitude.same, Scalar.exact]
  | null => simp [Value.equals]
  | str text => simp [Value.equals]

namespace Model

variable {model : Model Rat}

theorem Sound.isAlike (h : model.Sound) {position : Nat}
    (hposition : model.system.collector = some position) :
    Model.isAlike model.arena position = true := by
  have hlt : position < model.arena.size :=
    List.mem_range.mp (List.mem_of_mem_filter (h.collector position hposition))
  have hslot : model.arena[position]? = some model.arena[position] := Array.getElem?_eq_getElem hlt
  have hentry : (model.arena[position], position) ∈ model.arena.toList.zipIdx :=
    List.mk_mem_zipIdx_iff_getElem?.mpr (by rw [Array.getElem?_toList, hslot])
  obtain ⟨_, -, hnamed⟩ := exists_of_forall₂ (mapM_eq_ok_iff.mp h.names) hentry
  obtain ⟨key, hkey, -⟩ := bind_eq_ok.mp hnamed
  rw [Model.isAlike, idAt, hslot]
  exact Value.equals_self_of_key hkey

/-- **A sound model has a replay of every window, with buffers of its own or with others that are
large enough, and it reports what the effective stacks say.** -/
theorem Sound.exists_replay (h : model.Sound) {samples : List (Value Rat)}
    (hsamples : model.samples = some samples) (start stop : Option Rat) :
    ∃ nodes last, samples.mapM (requirePosition model.names) = .ok nodes ∧
      (∀ node ∈ nodes, node < model.arena.size) ∧
      model.timestamps[model.stopIndex samples.length start stop]? = some last ∧
      model.replay (.ofOption (start.map .num)) (.ofOption (stop.map .num)) =
        .ok (replayed model.arena model.system.collector last []
          (model.streamOf nodes start stop) []) ∧
      ∀ scratch : Scratch Rat, model.scratchSize ≤ scratch.starts.size →
        model.scratchSize ≤ scratch.inner.size →
        ∃ left, model.replayWith scratch (.ofOption (start.map .num)) (.ofOption (stop.map .num)) =
          .ok (left, replayed model.arena model.system.collector last []
            (model.streamOf nodes start stop) []) := by
  have hsize : model.arena.maxDepth + 2 ≤ model.scratchSize := Nat.le_succ _
  obtain ⟨nodes, last, hnodes, hlast, hreplay⟩ :=
    exists_replayWith h (fun _ => h.isAlike) hsamples start stop
  obtain ⟨_, hfound, hlt⟩ := h.exists_nodes hsamples
  obtain rfl := Except.ok.inj (hnodes.symm.trans hfound)
  refine ⟨nodes, last, hnodes, hlt, hlast, ?_, fun scratch hstarts hinner =>
    hreplay scratch (hsize.trans hstarts) (hsize.trans hinner)⟩
  obtain ⟨left, hblank⟩ := hreplay (Scratch.blank model.scratchSize)
    (hsize.trans_eq (Scratch.size_starts_blank _).symm)
    (hsize.trans_eq (Scratch.size_inner_blank _).symm)
  rw [replay, hblank]
  rfl

end Model
end SampledProfile
