/-
# Models before the repair

Loading a profile is making a model with its samples in the order of their times
(`Model.unrepaired`), and then replacing those that were missed (`Model.mend`).  What cannot be
loaded fails in the first step (`Model.exists_load_iff_unrepaired`), and the second changes nothing
but samples (`Model.eq_of_mend`).
-/
import SampledProfile.Proofs.Places

namespace SampledProfile

open Outcome

namespace Model

variable {α : Type} [Scalar α]

/-! ## 1. Two steps -/

/-- Samples of a recording in the order of its times, if it has any. -/
def ordered (recording : Recording α) (samples : List (Value α)) :
    Except Fault (List (Value α) × Option (List (Value α))) :=
  match recording.timestamps with
  | some times => (Samples.sort samples times).map fun sorted => (sorted.1, some sorted.2)
  | none => .ok (samples, none)

/-- The model of a recording before its samples are repaired. -/
def prepare (recording : Recording α) (keepNatives : Bool) : Except Fault (Model α) := do
  let contraction ← (Contraction.ofNodes (recording.nodes.map .obj)
    (Value.ofOption (recording.samples.map .list)) recording.start recording.finish keepNatives).2
  let arena := contraction.tree.arrange Call.self
  let names ← namesOf arena
  let bare : Model α := ⟨arena, names, systemNodes arena, contraction.totalHits, recording.start,
    recording.finish, [], none, 0, recording.lines⟩
  match contraction.samples with
  | none => return bare
  | some samples =>
    let (samples, times) ← ordered recording samples
    let line ← Timeline.ofSamples samples.length times recording.start recording.finish
    return { bare with
      start := line.start
      finish := line.finish
      timestamps := line.timestamps
      samples := some samples }

/-- The model with its samples repaired. -/
def mend (model : Model α) : Except Fault (Model α) :=
  match model.samples with
  | none => .ok model
  | some samples =>
    (repair model.arena model.names model.system samples).map fun result =>
      { model with samples := some result.1, repaired := result.2 }

/-- The positions of the samples that were replaced. -/
def replaced (before model : Model α) : Set Nat :=
  {position | (model.samples.getD [])[position]? ≠ (before.samples.getD [])[position]?}

/-- The model of a profile before its samples are repaired. -/
def unrepaired (profile : Value α) (keepNatives : Bool) : Except Fault (Model α) :=
  Recording.ofProfile profile >>= fun recording => prepare recording keepNatives

theorem ofRecording_eq_bind (recording : Recording α) (keepNatives : Bool) :
    ofRecording recording keepNatives = prepare recording keepNatives >>= mend := by
  unfold ofRecording prepare ordered
  rw [bind_assoc]
  refine bind_congr fun contraction => ?_
  dsimp only
  rw [bind_assoc]
  refine bind_congr fun names => ?_
  cases contraction.samples with
  | none => rfl
  | some samples =>
    dsimp only
    cases recording.timestamps with
    | none =>
      simp only [ok_bind, bind_assoc, pure_bind]
      refine bind_congr fun line => ?_
      simp only [mend]
      cases repair (contraction.tree.arrange Call.self) names
        (systemNodes (contraction.tree.arrange Call.self)) samples <;> rfl
    | some times =>
      dsimp only
      cases Samples.sort samples times with
      | error fault => rfl
      | ok sorted =>
        simp only [ok_bind, Except.map, bind_assoc, pure_bind]
        refine bind_congr fun line => ?_
        simp only [mend]
        cases repair (contraction.tree.arrange Call.self) names
          (systemNodes (contraction.tree.arrange Call.self)) sorted.1 <;> rfl

/-- **Loading is making the model and repairing its samples.** -/
theorem load_eq_bind (profile : Value α) (keepNatives : Bool) :
    load profile keepNatives = unrepaired profile keepNatives >>= mend := by
  rw [unrepaired, bind_assoc]
  exact bind_congr fun recording => ofRecording_eq_bind recording keepNatives

/-! ## 2. What they do -/

/-- The model before the repair knows its nodes by name, and its samples are ids of nodes. -/
theorem names_of_prepare {recording : Recording α} {keepNatives : Bool} {before : Model α}
    (h : prepare recording keepNatives = .ok before) :
    namesOf before.arena = .ok before.names ∧ ∀ samples, before.samples = some samples →
      ∀ id ∈ samples, ∃ call ∈ before.arena.labels, call.id = id := by
  obtain ⟨contraction, hcontraction, h⟩ := bind_eq_ok.mp h
  obtain ⟨names, hnames, h⟩ := bind_eq_ok.mp h
  cases hgiven : contraction.samples with
  | none =>
    rw [hgiven] at h
    obtain rfl := pure_eq_ok.mp h
    exact ⟨hnames, nofun⟩
  | some given =>
    rw [hgiven] at h
    obtain ⟨⟨samples, times⟩, hsort, h⟩ := bind_eq_ok.mp h
    obtain ⟨line, -, h⟩ := bind_eq_ok.mp h
    obtain rfl := pure_eq_ok.mp h
    refine ⟨hnames, fun _ hsamples id hid => ?_⟩
    obtain rfl := Option.some.inj hsamples
    have hperm : samples.Perm given := by
      unfold ordered at hsort
      split at hsort
      · obtain ⟨sorted, hsorted, hpair⟩ := map_eq_ok.mp hsort
        cases hpair
        exact (Samples.perm_of_sort hsorted).1
      · cases hsort
        exact .refl _
    exact ids_of_ofNodes hcontraction hgiven id (hperm.mem_iff.mp hid)

/-- The repair changes nothing but the samples, and how many of them were repaired. -/
theorem eq_of_mend {before model : Model α} (h : mend before = .ok model) :
    model = { before with samples := model.samples, repaired := model.repaired } := by
  unfold mend at h
  split at h
  · cases h
    rfl
  · obtain ⟨result, -, rfl⟩ := map_eq_ok.mp h
    rfl

theorem exists_mend {recording : Recording α} {keepNatives : Bool} {before : Model α}
    (h : prepare recording keepNatives = .ok before) : ∃ model, mend before = .ok model := by
  obtain ⟨hnames, hids⟩ := names_of_prepare h
  unfold mend
  cases hsamples : before.samples with
  | none => exact ⟨before, rfl⟩
  | some samples =>
    obtain ⟨repaired, count, hrepair⟩ := exists_repair hnames before.system (hids samples hsamples)
    exact ⟨_, map_eq_ok.mpr ⟨_, hrepair, rfl⟩⟩

/-- What cannot be loaded fails before the repair. -/
theorem exists_load_iff_unrepaired (profile : Value α) (keepNatives : Bool) :
    (∃ model, load profile keepNatives = .ok model) ↔
      ∃ before, unrepaired profile keepNatives = .ok before := by
  rw [load_eq_bind]
  constructor
  · rintro ⟨model, h⟩
    exact (bind_eq_ok.mp h).imp fun before hbefore => hbefore.1
  · rintro ⟨before, h⟩
    obtain ⟨recording, -, hprepare⟩ := bind_eq_ok.mp h
    exact (exists_mend hprepare).imp fun model hmodel => bind_eq_ok.mpr ⟨before, h, hmodel⟩

end Model
end SampledProfile
