/-
# Models under other names

Before the repair of samples, a profile under other names has its model under other names
(`Renaming.image_unrepaired`), so it can be loaded exactly if the profile can.  A replay reports the
same (`Renaming.replay_model`).  The repair is the same too, unless a node has the id that stands in
for missing nodes of the system under one of its names only (`Renaming.mend_model`).

* **Replacing every integer by another one replaces the integers in the model and does nothing
  else** (`Model.load_renamed`), unless there is such a collision;
* with one the model differs in its samples, and in how many of them were repaired
  (`Model.load_renamed_collidingId`).
-/
import SampledProfile.Proofs.Renaming.Recordings
import SampledProfile.Proofs.Renaming.Repairs
import SampledProfile.Proofs.Unrepaired

namespace SampledProfile

open Outcome

/-! ## 1. Other names -/

namespace Renaming

open Model

variable {α : Type} [Scalar α] (r : Renaming α)

/-- The model with new names for its nodes. -/
def model (model : Model α) : Model α :=
  { model with
    arena := r.arena model.arena
    names := r.names model.names
    samples := model.samples.map (List.map r.value) }

theorem arrange_contraction (contraction : Contraction α) :
    (r.contraction contraction).tree.arrange Call.self =
      r.arena (contraction.tree.arrange Call.self) := by
  refine Tree.arrange_map ?_ contraction.tree
  exact fun call => rfl

theorem map_obj_recording (recording : Recording α) :
    (r.recording recording).nodes.map .obj = (recording.nodes.map .obj).map r.node := by
  rw [Renaming.recording, List.map_map, List.map_map]
  rfl

theorem ofOption_recording (recording : Recording α) :
    Value.ofOption ((r.recording recording).samples.map .list) =
      r.listed (Value.ofOption (recording.samples.map .list)) := by
  rw [Renaming.recording]
  cases recording.samples <;> rfl

theorem image_ordered (recording : Recording α) (samples : List (Value α)) :
    Image (fun sorted => (sorted.1.map r.value, sorted.2)) (ordered recording samples)
      (ordered (r.recording recording) (samples.map r.value)) := by
  unfold ordered Renaming.recording
  cases recording.timestamps with
  | none => exact .ok (samples, none)
  | some times =>
    dsimp only
    rw [Samples.sort_map]
    exact (Image.map_self _ _).map fun _ => rfl

theorem image_prepare (recording : Recording α) (keepNatives : Bool) :
    Image r.model (prepare recording keepNatives)
      (prepare (r.recording recording) keepNatives) := by
  unfold prepare
  rw [map_obj_recording, ofOption_recording]
  refine (r.image_contraction _ _ _ _ _).bind fun contraction _ => ?_
  simp only [arrange_contraction, systemNodes_arena]
  refine (r.image_namesOf _).bind fun names _ => ?_
  cases hsamples : contraction.samples with
  | none =>
    simp only [Renaming.contraction, hsamples]
    exact .ok _
  | some samples =>
    simp only [Renaming.contraction, hsamples, Option.map_some]
    refine (r.image_ordered recording samples).bind fun sorted _ => ?_
    simp only [List.length_map]
    exact .bind_same fun line _ => .ok _

/-- **Before the repair, the model of a profile under new names is its model under new names.** -/
theorem image_unrepaired (profile : Value α) (keepNatives : Bool) :
    Image r.model (unrepaired profile keepNatives) (unrepaired (r.profile profile) keepNatives) :=
  (r.image_ofProfile profile).bind fun recording _ => r.image_prepare recording keepNatives

/-! ## 2. Replays -/

theorem window_model (model : Model α) (samples : List (Value α)) (start stop : Value α) :
    (r.model model).window (samples.map r.value) start stop =
      (model.window samples start stop).map fun cut =>
        (cut.1.map (Prod.map r.value id), cut.2) := by
  have hzip : (samples.map r.value).zip model.timestamps =
      (samples.zip model.timestamps).map (Prod.map r.value id) := List.zip_map_left
  unfold window
  simp only [Renaming.model, hzip, ← List.map_drop, List.isEmpty_map, List.takeWhile_map]
  split
  · simp only [pure_bind]
    split
    · rfl
    · cases stopOf stop with
      | error fault => rfl
      | ok bound => simp [Function.comp_def, Except.map]
  · cases start.number with
    | error fault => rfl
    | ok time =>
      simp only [ok_bind, pure_bind]
      split
      · rfl
      · cases stopOf stop with
        | error fault => rfl
        | ok bound => simp [Function.comp_def, Except.map]

theorem isAlike_arena {arena : Arena (Call α) α} {names : List (Key × Nat)}
    (hnames : namesOf arena = .ok names) : isAlike (r.arena arena) = isAlike arena := by
  funext position
  obtain ⟨key, hkey⟩ := exists_key_idAt hnames position
  rw [isAlike, isAlike, idAt_arena, r.equals_value hkey hkey]

theorem mapM_requirePosition {β : Type} (names : List (Key × Nat)) (stream : List (Value α × β)) :
    ((stream.map (Prod.map r.value id)).mapM fun sample => do
      return (← requirePosition (r.names names) sample.1, sample.2)) =
    stream.mapM fun sample => do return (← requirePosition names sample.1, sample.2) := by
  rw [List.mapM_map]
  refine congrArg (List.mapM · stream) (funext fun sample => ?_)
  exact congrArg (· >>= _) (r.requirePosition_names names sample.1)

/-- **A replay of a window reports the same events under new names.** -/
theorem replay_model {model : Model α} (hnames : namesOf model.arena = .ok model.names)
    (start stop : Value α) : (r.model model).replay start stop = model.replay start stop := by
  have hsize : (r.model model).scratchSize = model.scratchSize :=
    congrArg (· + 3) (Arena.maxDepth_mapLabels r.call model.arena)
  have hsamples : (r.model model).samples = model.samples.map (List.map r.value) := rfl
  have hnewNames : (r.model model).names = r.names model.names := rfl
  have hrun : ∀ stream last scratch,
      Replay.run (r.model model).arena model.system.collector (isAlike (r.model model).arena)
        stream last scratch =
      Replay.run model.arena model.system.collector (isAlike model.arena) stream last scratch := by
    intro stream last scratch
    rw [show isAlike (r.model model).arena = isAlike model.arena from r.isAlike_arena hnames]
    exact Replay.runFrom_mapLabels r.call model.arena _ _ last stream _
  unfold replay replayWith
  rw [hsize, hsamples]
  cases model.samples with
  | none => rfl
  | some samples =>
    cases samples with
    | nil => rfl
    | cons first rest =>
      have hwindow := r.window_model model (first :: rest) start stop
      rw [List.map_cons] at hwindow
      simp only [Option.map_some, List.map_cons, hwindow]
      cases model.window (first :: rest) start stop with
      | error fault => rfl
      | ok cut =>
        change Except.map Prod.snd (List.mapM _ (cut.1.map (Prod.map r.value id)) >>= fun stream =>
          Replay.run (r.model model).arena model.system.collector (isAlike (r.model model).arena)
            stream cut.2 (Scratch.blank model.scratchSize)) = _
        rw [hnewNames, mapM_requirePosition]
        simp only [hrun]
        rfl

/-! ## 3. Repaired samples -/

/-- All nodes of the system that the repair asks for are there, or the id that stands in for a
missing one is that of the same nodes before and after. -/
def SparesStandIn (model : Model α) : Prop :=
  model.system.program = none ∨ SystemNodes.complete model.system = true ∨
    ∀ position < model.arena.size, r.Spares (idAt model.arena position)

instance (model : Model α) : Decidable (r.SparesStandIn model) :=
  inferInstanceAs (Decidable (_ ∨ _ ∨ ∀ position < _, _ ↔ _))

variable {recording : Recording α} {keepNatives : Bool} {before : Model α}

/-- What is repaired under new names is what was repaired, if the id that stands in is spared. -/
theorem mend_model (h : prepare recording keepNatives = .ok before)
    (hspares : r.SparesStandIn before) : mend (r.model before) = (mend before).map r.model := by
  obtain ⟨hnames, hids⟩ := names_of_prepare h
  have hnew : (r.model before).samples = before.samples.map (List.map r.value) := rfl
  unfold mend
  rw [hnew]
  cases hsamples : before.samples with
  | none => rfl
  | some samples =>
    have hplaces : ∀ v ∈ samples,
        ∃ position < before.arena.size, idAt before.arena position = v := by
      intro v hv
      obtain ⟨call, hcall, rfl⟩ := hids samples hsamples v hv
      exact exists_place_of_mem (List.mem_map_of_mem hcall)
    have hkeys : ∀ v ∈ samples, ∃ key, v.key = .ok key := fun v hv => by
      obtain ⟨position, -, rfl⟩ := hplaces v hv
      exact exists_key_idAt hnames position
    have hrepair := r.repair_map hnames before.system hkeys
      (hspares.imp_right (.imp_right fun hall v hv => by
        obtain ⟨position, hposition, rfl⟩ := hplaces v hv
        exact hall position hposition))
    change Except.map _ (repair (r.arena before.arena) (r.names before.names) before.system
      (samples.map r.value)) = _
    rw [hrepair]
    dsimp only
    cases repair before.arena before.names before.system samples <;> rfl

variable {model : Model α}

/-- Different ids of nodes stay different. -/
theorem eq_of_value_eq (h : ofRecording recording keepNatives = .ok model) {v w : Value α}
    (hv : v ∈ model.arena.labels.map (·.id)) (hw : w ∈ model.arena.labels.map (·.id))
    (heq : r.value v = r.value w) : v = w := by
  obtain ⟨hnd, -⟩ := labels_of_ofRecording h
  have hnames := (sound_of_ofRecording h).names
  obtain ⟨first, hfirst, rfl⟩ := exists_place_of_mem hv
  obtain ⟨second, hsecond, rfl⟩ := exists_place_of_mem hw
  obtain ⟨key, hkey⟩ := exists_key_idAt hnames first
  obtain ⟨other, hother⟩ := exists_key_idAt hnames second
  have hnew := r.key_value (idAt model.arena first)
  rw [heq, key_value, hkey, hother] at hnew
  obtain rfl := r.key_injective (Except.ok.inj hnew)
  have hfound := positionOf_of_place hnames hnd hfirst ⟨other, hkey, hkey⟩
  rw [positionOf_of_place hnames hnd hsecond ⟨other, hkey, hother⟩] at hfound
  rw [Option.some.inj (Except.ok.inj hfound)]

theorem getD_samples_model (model : Model α) :
    (r.model model).samples.getD [] = (model.samples.getD []).map r.value := by
  rw [Renaming.model]
  cases model.samples <;> rfl

/-- Under new names the same samples are replaced by others. -/
theorem replaced_model (h : prepare recording keepNatives = .ok before)
    (hmend : mend before = .ok model) :
    replaced (r.model before) (r.model model) = replaced before model := by
  have hmodel : ofRecording recording keepNatives = .ok model := by
    rw [ofRecording_eq_bind, h]
    exact hmend
  have harena : model.arena = before.arena := by rw [eq_of_mend hmend]
  have hids : ∀ {samples : Option (List (Value α))},
      (∀ given, samples = some given → ∀ id ∈ given, ∃ call ∈ model.arena.labels, call.id = id) →
      ∀ v ∈ samples.getD [], v ∈ model.arena.labels.map (·.id) := by
    intro samples hsamples v hv
    cases samples with
    | none => cases hv
    | some given => exact List.mem_map.mpr (hsamples given rfl v hv)
  have hold := hids (harena ▸ (names_of_prepare h).2)
  have hnew := hids (sound_of_ofRecording hmodel).samples
  refine Set.ext fun position => not_congr ?_
  rw [getD_samples_model, getD_samples_model, List.getElem?_map, List.getElem?_map]
  cases hafter : (model.samples.getD [])[position]? with
  | none => cases (before.samples.getD [])[position]? <;> simp
  | some v =>
    cases hbefore : (before.samples.getD [])[position]? with
    | none => simp
    | some w =>
      simp only [Option.map_some, Option.some.injEq]
      refine ⟨r.eq_of_value_eq hmodel (hnew v (List.mem_of_getElem? hafter))
        (hold w (List.mem_of_getElem? hbefore)), congrArg r.value⟩

/-- A model is another one under new names, with the same samples replaced, and with the same
replay of every window. -/
structure Carries (before model other : Model α) : Prop where
  eq_model : other = r.model model
  replaced : replaced (r.model before) other = replaced before model
  replay : ∀ start stop, other.replay start stop = model.replay start stop

/-! ## 4. Loading -/

/-- **A profile is loaded under new names exactly if it is loaded.** -/
theorem exists_load_iff (profile : Value α) (keepNatives : Bool) :
    (∃ other, load (r.profile profile) keepNatives = .ok other) ↔
      ∃ model, load profile keepNatives = .ok model := by
  rw [exists_load_iff_unrepaired, exists_load_iff_unrepaired]
  constructor
  · rintro ⟨other, hother⟩
    obtain ⟨before, hbefore, -⟩ := (r.image_unrepaired profile keepNatives).eq_ok_iff.mp hother
    exact ⟨before, hbefore⟩
  · rintro ⟨before, hbefore⟩
    exact ⟨_, (r.image_unrepaired profile keepNatives).eq_ok_iff.mpr ⟨before, hbefore, rfl⟩⟩

/-- **The model of a profile under new names is its model under new names, apart from the samples,
and also in the samples if the id that stands in is spared.** -/
theorem exists_carries {profile : Value α} (h : load profile keepNatives = .ok model) :
    ∃ before other, unrepaired profile keepNatives = .ok before ∧
      unrepaired (r.profile profile) keepNatives = .ok (r.model before) ∧
      load (r.profile profile) keepNatives = .ok other ∧
      other = { r.model model with samples := other.samples, repaired := other.repaired } ∧
      (r.SparesStandIn model → r.Carries before model other) := by
  rw [load_eq_bind] at h
  obtain ⟨before, hbefore, hmend⟩ := bind_eq_ok.mp h
  have hnew : unrepaired (r.profile profile) keepNatives = .ok (r.model before) :=
    (r.image_unrepaired profile keepNatives).eq_ok_iff.mpr ⟨before, hbefore, rfl⟩
  obtain ⟨recording, -, hprepare⟩ := bind_eq_ok.mp hbefore
  obtain ⟨recording', -, hprepare'⟩ := bind_eq_ok.mp hnew
  obtain ⟨other, hother⟩ := exists_mend hprepare'
  have hload : load (r.profile profile) keepNatives = .ok other := by
    rw [load_eq_bind, hnew]
    exact hother
  refine ⟨before, other, hbefore, hnew, hload, ?_, fun hspares => ?_⟩
  · rw [eq_of_mend hother, eq_of_mend hmend]
    rfl
  · have hbeforeSpares : r.SparesStandIn before := by
      rw [eq_of_mend hmend] at hspares
      exact hspares
    rw [r.mend_model hprepare hbeforeSpares, hmend] at hother
    obtain rfl := Except.ok.inj hother
    have hnames : namesOf model.arena = .ok model.names := by
      rw [eq_of_mend hmend]
      exact (names_of_prepare hprepare).1
    exact ⟨rfl, r.replaced_model hprepare hmend, r.replay_model hnames⟩

end Renaming

namespace Model

/-- **Integers are names and no more: a profile with every one of them replaced by another is loaded
exactly if the profile is, and to the same model with the integers replaced.  The samples that are
repaired and the replays are the same as long as a node that has the id minus one, which stands in
for missing nodes of the system, keeps it, and no other node is given it.** -/
theorem load_renamed {f : Int → Int} (hf : Function.Injective f) (profile : Value Number)
    (keepNatives : Bool) :
    ((∃ other, load ((Renaming.ofInjective f hf).profile profile) keepNatives = .ok other) ↔
      ∃ model, load profile keepNatives = .ok model) ∧
    ∀ model, load profile keepNatives = .ok model →
      ∃ before other, unrepaired profile keepNatives = .ok before ∧
        unrepaired ((Renaming.ofInjective f hf).profile profile) keepNatives =
          .ok ((Renaming.ofInjective f hf).model before) ∧
        load ((Renaming.ofInjective f hf).profile profile) keepNatives = .ok other ∧
        other = { (Renaming.ofInjective f hf).model model with
          samples := other.samples, repaired := other.repaired } ∧
        ((Renaming.ofInjective f hf).SparesStandIn model →
          (Renaming.ofInjective f hf).Carries before model other) :=
  ⟨Renaming.exists_load_iff _ profile keepNatives, fun _ h => Renaming.exists_carries _ h⟩

/-- A profile with a missed sample between two samples of a function, and no node of a garbage
collection. -/
def missedSample : Value Number :=
  .obj [
    ("nodes", .list [
      .obj [("id", .int 1), ("children", .list [.int 2, .int 3])],
      .obj [("id", .int 2), ("functionName", .str "f")],
      .obj [("id", .int 3), ("functionName", .str programName)]]),
    ("samples", .list [.int 2, .int 3, .int 2]),
    ("endTime", .int 1000)]

theorem load_renamed_missedSample :
    ∃ before model other, unrepaired missedSample false = .ok before ∧
      load missedSample false = .ok model ∧ model.repaired = 1 ∧
      load ((Renaming.shift 10).profile missedSample) false = .ok other ∧
      (Renaming.shift 10).Carries before model other := by
  have hchecked : (do
      let model ← load missedSample false
      return (model.repaired, decide ((Renaming.shift 10).SparesStandIn model))) =
        .ok (1, true) := by
    decide +kernel
  obtain ⟨model, hload, hchecks⟩ := bind_eq_ok.mp hchecked
  obtain ⟨hrepaired, hspares⟩ := Prod.mk.inj (pure_eq_ok.mp hchecks)
  obtain ⟨before, other, hbefore, -, hother, -, hcarries⟩ :=
    (load_renamed (Renaming.injective_shift 10) missedSample false).2 model hload
  exact ⟨before, model, other, hbefore, hload, hrepaired, hother,
    hcarries (of_decide_eq_true hspares)⟩

/-- **If the function is given the id minus one, which stands in for the missing node of the garbage
collection, its missed sample is not repaired any more.** -/
theorem load_renamed_collidingId :
    ∃ model other, load missedSample false = .ok model ∧
      load ((Renaming.shift (-3)).profile missedSample) false = .ok other ∧
      model.repaired = 1 ∧ other.repaired = 0 ∧
      other ≠ (Renaming.shift (-3)).model model := by
  have hchecked : (do
      let model ← load missedSample false
      let other ← load ((Renaming.shift (-3)).profile missedSample) false
      return (model.repaired, other.repaired)) = .ok (1, 0) := by
    decide +kernel
  obtain ⟨model, hload, hchecked⟩ := bind_eq_ok.mp hchecked
  obtain ⟨other, hother, hchecked⟩ := bind_eq_ok.mp hchecked
  obtain ⟨hrepaired, hnone⟩ := Prod.mk.inj (pure_eq_ok.mp hchecked)
  refine ⟨model, other, hload, hother, hrepaired, hnone, fun hsame => ?_⟩
  rw [hsame] at hnone
  exact absurd (hrepaired.symm.trans hnone) (by decide)

end Model
end SampledProfile
