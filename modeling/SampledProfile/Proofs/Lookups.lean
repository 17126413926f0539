/-
# Every sample of a loaded model has its node

The nodes of a profile are named by integers and texts.  Loading keeps some of them, and what is
asked for later on is asked by name: the repair of missed samples and the replay ask for the nodes of
samples, and a caller for whatever it wants.

`Model.resolves_of_load` says what the answers are.  A name has a node exactly if it is that of a kept
node, and the samples are such names, as they are put in order and as they are repaired
(`Model.Resolves`).  So a replay of any window has a node for each of its samples.
-/
import SampledProfile.Proofs.Places
import SampledProfile.Proofs.Replay.Windows

namespace SampledProfile

open Outcome

/-! ## 1. Integers and texts -/

/-- Is the value an integer or a text? -/
def Value.isName : Value Number → Bool
  | .num (.int _) => true
  | .str _ => true
  | _ => false

namespace Value

theorem exists_key_of_isName {v : Value Number} (h : v.isName = true) : ∃ key, v.key = .ok key := by
  unfold isName at h
  split at h
  · exact ⟨_, rfl⟩
  · exact ⟨_, rfl⟩
  · cases h

/-- Integers and texts are the same name only if they are the same. -/
theorem SameName.eq_of_isName {v other : Value Number} (h : v.SameName other)
    (hv : v.isName = true) (hother : other.isName = true) : v = other := by
  obtain ⟨key, hkey, hsame⟩ := h
  rw [← hsame] at hkey
  unfold isName at hv hother
  split at hv
  · rename_i n
    split at hother
    · rename_i m
      have hvalue : (n : Rat) = m := Magnitude.finite.inj (Key.number.inj (Except.ok.inj hkey))
      rw [Rat.intCast_inj.mp hvalue]
    · cases hkey
    · cases hother
  · split at hother
    · cases hkey
    · rw [Key.text.inj (Except.ok.inj hkey)]
    · cases hother
  · cases hv

theorem equals_self_of_isName {v : Value Number} (h : v.isName = true) : v.equals v = true := by
  unfold isName at h
  split at h
  · exact decide_eq_true rfl
  · exact decide_eq_true rfl
  · cases h

end Value

/-- An integer is at or above zero as a number if it is. -/
theorem Number.ge_zero (n : Int) :
    Scalar.ge (Scalar.ofInt n : Number) (Scalar.ofInt 0) = decide (0 ≤ n) := by
  have hlt : Scalar.lt (Scalar.ofInt 0 : Number) (Scalar.ofInt n) = decide ((0 : Int) < n) :=
    decide_eq_decide.mpr Rat.intCast_lt_intCast
  have hsame : Scalar.same (Scalar.ofInt n : Number) (Scalar.ofInt 0) = decide (n = 0) := by
    refine decide_eq_decide.mpr ⟨fun h => Rat.intCast_inj.mp (Magnitude.finite.inj h), ?_⟩
    rintro rfl
    rfl
  rw [show Scalar.ge (Scalar.ofInt n : Number) (Scalar.ofInt 0) =
    (Scalar.lt (Scalar.ofInt 0 : Number) (Scalar.ofInt n) ||
      Scalar.same (Scalar.ofInt n : Number) (Scalar.ofInt 0)) from rfl, hlt, hsame]
  by_cases hn : 0 ≤ n
  · by_cases hzero : n = 0
    · simp [hzero]
    · have : 0 < n := by omega
      simp [this, hn]
  · have hzero : n ≠ 0 := by omega
    have hnot : ¬ 0 < n := by omega
    simp [hn, hzero, hnot]

/-- Integers are below one another as numbers if they are. -/
theorem Number.lt_ofInt (n m : Int) :
    Scalar.lt (Scalar.ofInt n : Number) (Scalar.ofInt m) = decide (n < m) :=
  decide_eq_decide.mpr Rat.intCast_lt_intCast

namespace Model

/-! ## 2. Samples -/

section Samples

variable {α : Type} [Scalar α] {recording : Recording α} {keepNatives : Bool} {model : Model α}

/-- The samples of a recording in order, before missed ones are replaced. -/
def IsOrdered (recording : Recording α) (keepNatives : Bool) (ordered : List (Value α)) : Prop :=
  ∃ contraction samples line,
    (Contraction.ofNodes (recording.nodes.map .obj) (.ofOption (recording.samples.map .list))
      recording.start recording.finish keepNatives).2 = .ok contraction ∧
    contraction.samples = some samples ∧ Timed recording samples ordered line

/-- Samples in order are ids of kept nodes. -/
theorem isKept_of_isOrdered {ordered : List (Value α)} (h : IsOrdered recording keepNatives ordered) :
    ∀ id ∈ ordered, Contraction.IsKept recording.nodes keepNatives id := by
  obtain ⟨contraction, samples, line, hcontraction, hsamples, htimed⟩ := h
  have hperm : ordered.Perm samples := by
    cases htimed with
    | recorded _ hsort _ => exact (Samples.perm_of_sort hsort).1
    | spread _ _ => exact .refl _
  intro id hid
  obtain ⟨call, hcall, rfl⟩ := Contraction.exists_label_of_mem_samples hcontraction hsamples id
    (hperm.mem_iff.mp hid)
  exact (Contraction.mem_ids_iff_isKept hcontraction).mp (List.mem_map_of_mem hcall)

/-- The samples of a model are those of its recording in order and repaired. -/
theorem exists_isOrdered (h : ofRecording recording keepNatives = .ok model)
    {samples : List (Value α)} (hsamples : model.samples = some samples) :
    ∃ ordered, IsOrdered recording keepNatives ordered ∧
      repair model.arena model.names model.system ordered = .ok (samples, model.repaired) := by
  obtain ⟨contraction, names, hcontraction, -, hstages⟩ := ofRecording_eq_ok_iff.mp h
  cases hstages with
  | bare => cases hsamples
  | sampled hgiven htimed hrepair =>
    obtain rfl := Option.some.inj hsamples
    exact ⟨_, ⟨contraction, _, _, hcontraction, hgiven, htimed⟩, hrepair⟩

/-- The top-level node of the id of a kept node is known. -/
theorem exists_topOf (h : ofRecording recording keepNatives = .ok model) {id : Value α}
    (hkept : Contraction.IsKept recording.nodes keepNatives id) :
    ∃ top, topOf model.arena model.names id = .ok top := by
  obtain ⟨position, -, -, hfound, -⟩ := byId_of_isKept h hkept
  refine ⟨Arena.topFrom model.arena.parent? model.arena.size position, bind_eq_ok.mpr ?_⟩
  exact ⟨position, bind_eq_ok.mpr ⟨_, hfound, rfl⟩, rfl⟩

end Samples

/-! ## 3. Answers -/

/-- What is asked of a model by name, by index or by a replay has an answer, and which one. -/
structure Resolves (recording : Recording Number) (keepNatives : Bool) (model : Model Number) :
    Prop where
  /-- For the id of a kept node the node is found that has it, and no other node has it. -/
  found : ∀ id, Contraction.IsKept recording.nodes keepNatives id →
    ∃ position, model.byId id = .ok (some position) ∧
      ∀ place, (∃ slot, model.arena[place]? = some slot ∧ slot.label.id = id) ↔ place = position
  /-- For any other name nothing is found. -/
  missing : ∀ id, Value.isName id = true → ¬ Contraction.IsKept recording.nodes keepNatives id →
    model.byId id = .ok none
  /-- The samples are ids of kept nodes, before the repair and after it, and the repair finds the
  top-level node of each of them. -/
  samples : ∀ repaired, model.samples = some repaired →
    ∃ ordered, IsOrdered recording keepNatives ordered ∧
      repair model.arena model.names model.system ordered = .ok (repaired, model.repaired) ∧
      ∀ id, id ∈ ordered ∨ id ∈ repaired → Contraction.IsKept recording.nodes keepNatives id ∧
        ∃ top, topOf model.arena model.names id = .ok top
  /-- At an index there is the node of the sample that stands there, and outside there is none. -/
  byIndex : ∀ index : Int,
    (∀ id, 0 ≤ index → (model.samples.getD [])[index.toNat]? = some id →
      ∃ position, model.byIndex (.int index) = .ok (some position) ∧
        model.byId id = .ok (some position)) ∧
    (¬ (0 ≤ index ∧ index < (model.samples.getD []).length) →
      model.byIndex (.int index) = .ok none)
  /-- Any window can be replayed, with any buffers that are large enough. -/
  replay : ∀ (start stop : Option Number) (scratch : Scratch Number),
    model.scratchSize ≤ scratch.starts.size → model.scratchSize ≤ scratch.inner.size →
    ∃ result, model.replayWith scratch (.ofOption (start.map .num)) (.ofOption (stop.map .num)) =
      .ok result

variable {recording : Recording Number} {keepNatives : Bool} {model : Model Number}

/-- Kept ids are names if all ids are. -/
theorem isName_of_isKept (hids : ∀ node ∈ recording.nodes, (node.get "id").isName = true)
    {id : Value Number} (hkept : Contraction.IsKept recording.nodes keepNatives id) :
    id.isName = true := by
  obtain ⟨position, node, hnode, rfl, -⟩ := hkept
  exact hids node (List.mem_of_getElem? hnode)

theorem byId_of_name (h : ofRecording recording keepNatives = .ok model)
    (hids : ∀ node ∈ recording.nodes, (node.get "id").isName = true) {id : Value Number}
    (hid : id.isName = true) (hmissing : ¬ Contraction.IsKept recording.nodes keepNatives id) :
    model.byId id = .ok none := by
  obtain ⟨key, hkey⟩ := Value.exists_key_of_isName hid
  refine byId_of_not_isKept h hkey fun kept hkept hname => ?_
  rw [hname.eq_of_isName hid (isName_of_isKept hids hkept)] at hmissing
  exact hmissing hkept

/-- What an index gives is what the id of its sample gives. -/
theorem byIndex_eq (model : Model Number) (index : Int) :
    model.byIndex (.int index) =
      if 0 ≤ index ∧ index < (model.samples.getD []).length then
        model.byId ((model.samples.getD []).getD index.toNat .null)
      else .ok none := by
  unfold byIndex
  split
  · rename_i hnone
    simp [hnone]
  · rename_i hnil
    simp [hnil]
  · rename_i samples _ hsome
    have hnumber : (Value.int index : Value Number).number = .ok (Scalar.ofInt index) := rfl
    have hinteger : (Value.int index : Value Number).integer? = some index := rfl
    rw [hnumber, ok_bind, Number.ge_zero, Number.lt_ofInt, hsome, Option.getD_some]
    simp only [hinteger, Bool.and_eq_true, decide_eq_true_eq]
    rfl

/-- The id of the collector is a name. -/
theorem isAlike_collector (h : ofRecording recording keepNatives = .ok model)
    (hids : ∀ node ∈ recording.nodes, (node.get "id").isName = true) {position : Nat}
    (hposition : model.system.collector = some position) : isAlike model.arena position = true := by
  obtain ⟨-, hmem⟩ := labels_of_ofRecording h
  have hchild := (sound_of_ofRecording h).collector position hposition
  have hlt : position < model.arena.size := List.mem_range.mp (List.mem_of_mem_filter hchild)
  exact Value.equals_self_of_isName (isName_of_isKept hids ((hmem _).mp (idAt_mem hlt)))

theorem exists_replayWith_of_ofRecording (h : ofRecording recording keepNatives = .ok model)
    (hids : ∀ node ∈ recording.nodes, (node.get "id").isName = true) (start stop : Option Number)
    {scratch : Scratch Number} (hstarts : model.scratchSize ≤ scratch.starts.size)
    (hinner : model.scratchSize ≤ scratch.inner.size) :
    ∃ result, model.replayWith scratch (.ofOption (start.map .num)) (.ofOption (stop.map .num)) =
      .ok result := by
  have hsize : model.arena.maxDepth + 2 ≤ model.scratchSize := Nat.le_succ _
  cases hsamples : model.samples with
  | none =>
    refine ⟨(scratch, []), ?_⟩
    rw [replayWith, hsamples]
  | some samples =>
    obtain ⟨nodes, last, -, -, hreplay⟩ := exists_replayWith (sound_of_ofRecording h)
      (fun position hposition => isAlike_collector h hids hposition) hsamples start stop
    obtain ⟨left, hleft⟩ := hreplay scratch (hsize.trans hstarts) (hsize.trans hinner)
    exact ⟨_, hleft⟩

/-- **Of a profile whose ids are integers and texts, every sample has its node, and every question by
name has the answer that it should have.** -/
theorem resolves_of_load {profile : Value Number}
    (hrecording : Recording.ofProfile profile = .ok recording)
    (hids : ∀ node ∈ recording.nodes, (node.get "id").isName = true)
    (hload : load profile keepNatives = .ok model) : Resolves recording keepNatives model := by
  have h : ofRecording recording keepNatives = .ok model := by
    rwa [load, hrecording, ok_bind] at hload
  have hfound : ∀ id, Contraction.IsKept recording.nodes keepNatives id →
      ∃ position, model.byId id = .ok (some position) ∧
        ∀ place, (∃ slot, model.arena[place]? = some slot ∧ slot.label.id = id) ↔
          place = position := by
    intro id hkept
    obtain ⟨position, hposition, hid, hlook, hunique⟩ := byId_of_isKept h hkept
    refine ⟨position, hlook, fun place => ⟨?_, ?_⟩⟩
    · rintro ⟨slot, hslot, hlabel⟩
      have hplace : idAt model.arena place = id := by
        rw [idAt, hslot]
        exact hlabel
      obtain ⟨key, hkey⟩ := Value.exists_key_of_isName (isName_of_isKept hids hkept)
      refine hunique place (Array.getElem?_eq_some_iff.mp hslot).1 ⟨key, hkey, ?_⟩
      rw [hplace, hkey]
    · rintro rfl
      refine ⟨_, Array.getElem?_eq_getElem hposition, ?_⟩
      rw [← hid, idAt, Array.getElem?_eq_getElem hposition]
      rfl
  have hsamples : ∀ repaired, model.samples = some repaired →
      ∃ ordered, IsOrdered recording keepNatives ordered ∧
        repair model.arena model.names model.system ordered = .ok (repaired, model.repaired) ∧
        ∀ id, id ∈ ordered ∨ id ∈ repaired → Contraction.IsKept recording.nodes keepNatives id ∧
          ∃ top, topOf model.arena model.names id = .ok top := by
    intro repaired hrepaired
    obtain ⟨ordered, hordered, hrepair⟩ := exists_isOrdered h hrepaired
    refine ⟨ordered, hordered, hrepair, fun id hid => ?_⟩
    have hmem : id ∈ ordered := hid.elim (fun hmem => hmem) ((of_repair hrepair).2 id)
    have hkept := isKept_of_isOrdered hordered id hmem
    exact ⟨hkept, exists_topOf h hkept⟩
  refine ⟨hfound, fun id hid => byId_of_name h hids hid, hsamples, fun index => ⟨?_, ?_⟩,
    fun start stop scratch => exists_replayWith_of_ofRecording h hids start stop⟩
  · intro id hindex hid
    obtain ⟨hlt, hget⟩ := List.getElem?_eq_some_iff.mp hid
    have hkept : Contraction.IsKept recording.nodes keepNatives id := by
      cases hgiven : model.samples with
      | none => simp [hgiven] at hid
      | some samples =>
        obtain ⟨ordered, -, -, hall⟩ := hsamples samples hgiven
        rw [hgiven] at hid
        exact (hall id (.inr (List.mem_of_getElem? hid))).1
    obtain ⟨position, hposition, -⟩ := hfound id hkept
    refine ⟨position, ?_, hposition⟩
    rw [byIndex_eq, if_pos ⟨hindex, by omega⟩, List.getD_eq_getElem?_getD, hid]
    exact hposition
  · intro houtside
    rw [byIndex_eq, if_neg houtside]

/-- A profile with a native node that is named by an integer and sampled, below a node that is named by
a text. -/
def sampledNative : Value Number :=
  .obj [
    ("nodes", .list [
      .obj [("id", .int 1), ("children", .list [.str "a"])],
      .obj [("id", .str "a"), ("children", .list [.int 3])],
      .obj [("id", .int 3), ("url", .str "native array.js")]]),
    ("samples", .list [.int 3, .str "a", .int 3]),
    ("endTime", .int 1000)]

theorem resolves_sampledNative :
    ∃ recording model, Recording.ofProfile sampledNative = .ok recording ∧
      load sampledNative false = .ok model ∧ Resolves recording false model := by
  have hchecked : (do
      let recording ← Recording.ofProfile sampledNative
      let model ← load sampledNative false
      return (recording.nodes.all fun node => (node.get "id").isName, model.names.length)) =
        .ok (true, 2) := by
    decide +kernel
  obtain ⟨recording, hrecording, hchecks⟩ := bind_eq_ok.mp hchecked
  obtain ⟨model, hload, hchecks⟩ := bind_eq_ok.mp hchecks
  obtain ⟨hnames, -⟩ := Prod.mk.inj (pure_eq_ok.mp hchecks)
  exact ⟨recording, model, hrecording, hload,
    resolves_of_load hrecording (List.all_eq_true.mp hnames) hload⟩

end Model
end SampledProfile
