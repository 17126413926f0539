/-
# Where the nodes of a model are found

A node of a model is asked for by its id.  What is found is a node with that id (`of_positionOf`),
and it is the only one (`positionOf_of_place`), since no id stands in a tree twice.  So of a model
that was loaded it can be said which ids have a node:

* `labels_of_ofRecording`: those of the nodes of the recording that are kept;
* `byId_of_isKept`: each of them is found, and at one place only;
* `byId_of_not_isKept`: nothing is found for a value that is none of them.

Samples that are ids of nodes can be repaired (`exists_repair`): every question that the repair asks
has an answer.
-/
import SampledProfile.Proofs.Contraction.Ids
import SampledProfile.Proofs.Loaded

namespace SampledProfile
namespace Model

open Outcome

variable {α : Type} [Scalar α] {arena : Arena (Call α) α} {names : List (Key × Nat)}

/-! ## 1. Places by id -/

omit [Scalar α] in
theorem idAt_of_label {position : Nat} {call : Call α} (h : arena.labels[position]? = some call) :
    idAt arena position = call.id := by
  rw [Arena.getElem?_labels] at h
  obtain ⟨slot, hslot, rfl⟩ := Option.map_eq_some_iff.mp h
  rw [idAt, hslot]
  rfl

/-- What is found for an id is the place of a node with the id. -/
theorem of_positionOf (hnames : namesOf arena = .ok names) {id : Value α} {position : Nat}
    (h : positionOf names id = .ok (some position)) :
    position < arena.size ∧ id.SameName (idAt arena position) := by
  obtain ⟨key, hkey, hlook⟩ := bind_eq_ok.mp h
  obtain ⟨⟨slot, index⟩, hentry, hfound⟩ :=
    mem_of_mapM hnames (Key.mem_of_lookup_eq_some (pure_eq_ok.mp hlook))
  obtain ⟨found, hslotKey, hpair⟩ := bind_eq_ok.mp hfound
  obtain ⟨rfl, rfl⟩ := Prod.mk.inj (pure_eq_ok.mp hpair)
  have hslot := List.mk_mem_zipIdx_iff_getElem?.mp hentry
  have hlabel : arena.labels[index]? = some slot.label := by
    rw [Arena.labels, List.getElem?_map, hslot, Option.map_some]
  refine ⟨Arena.lt_size_of_label hlabel, found, hkey, ?_⟩
  rw [idAt_of_label hlabel]
  exact hslotKey

/-- A node that has to be there is one that is found. -/
theorem positionOf_of_require {id : Value α} {position : Nat}
    (h : requirePosition names id = .ok position) : positionOf names id = .ok (some position) := by
  unfold requirePosition at h
  obtain ⟨place, hplace, h⟩ := bind_eq_ok.mp h
  cases place with
  | none => cases h
  | some place => rw [hplace, pure_eq_ok.mp h]

/-- Where no id stands twice, the place of a node is found for its id. -/
theorem positionOf_of_place (hnames : namesOf arena = .ok names)
    (hnd : (arena.labels.map fun call => call.id.key).Nodup) {id : Value α} {position : Nat}
    (hp : position < arena.size) (hname : id.SameName (idAt arena position)) :
    positionOf names id = .ok (some position) := by
  have hlabelAt : ∀ place < arena.size, ∃ call, arena.labels[place]? = some call :=
    fun place hplace => ⟨_, List.getElem?_eq_getElem (by simpa [Arena.labels] using hplace)⟩
  obtain ⟨call, hcall⟩ := hlabelAt position hp
  obtain ⟨key, hkey, hsame⟩ := hname
  rw [idAt_of_label hcall] at hsame
  obtain ⟨found, -, hfound⟩ := exists_position hnames (List.mem_of_getElem? hcall)
  have hlook : positionOf names call.id = .ok (some found) := positionOf_of_require hfound
  obtain ⟨hlt, other, hother, hplace⟩ := of_positionOf hnames hlook
  obtain ⟨call', hcall'⟩ := hlabelAt found hlt
  rw [idAt_of_label hcall'] at hplace
  have hkeys : ∀ {place : Nat} {call : Call α}, arena.labels[place]? = some call →
      (arena.labels.map fun call => call.id.key)[place]? = some call.id.key := fun h => by
    rw [List.getElem?_map, h, Option.map_some]
  have hfirst := hkeys hcall
  have hsecond := hkeys hcall'
  rw [hother] at hfirst
  rw [hplace] at hsecond
  obtain rfl : position = found :=
    (List.getElem?_inj (List.getElem?_eq_some_iff.mp hfirst).1 hnd).mp (hfirst.trans hsecond.symm)
  rw [positionOf, hsame] at hlook
  rw [positionOf, hkey]
  exact hlook

/-- Every id of an arena with names can be looked up. -/
theorem exists_key_of_label (hnames : namesOf arena = .ok names) {call : Call α}
    (hcall : call ∈ arena.labels) : ∃ key, call.id.key = .ok key := by
  obtain ⟨found, -, hfound⟩ := exists_position hnames hcall
  obtain ⟨_, hplace, -⟩ := bind_eq_ok.mp hfound
  obtain ⟨key, hkey, -⟩ := bind_eq_ok.mp hplace
  exact ⟨key, hkey⟩

theorem exists_key_idAt (hnames : namesOf arena = .ok names) (position : Nat) :
    ∃ key, (idAt arena position).key = .ok key := by
  cases hslot : arena[position]? with
  | none =>
    rw [idAt, hslot]
    exact ⟨.null, rfl⟩
  | some slot =>
    have hlabel : arena.labels[position]? = some slot.label := by
      rw [Arena.getElem?_labels, hslot, Option.map_some]
    rw [idAt_of_label hlabel]
    exact exists_key_of_label hnames (List.mem_of_getElem? hlabel)

theorem exists_namesOf (h : ∀ call ∈ arena.labels, ∃ key, call.id.key = .ok key) :
    ∃ names, namesOf arena = .ok names :=
  exists_mapM_of_forall fun entry hentry => by
    have hslot := List.mem_of_getElem? (List.mk_mem_zipIdx_iff_getElem?.mp hentry)
    obtain ⟨key, hkey⟩ := h entry.1.label (List.mem_map_of_mem hslot)
    exact ⟨(key, entry.2), bind_eq_ok.mpr ⟨key, hkey, rfl⟩⟩

/-- The nodes of the system have keys. -/
theorem exists_systemKeys (hnames : namesOf arena = .ok names) (system : SystemNodes)
    (program : Nat) : ∃ keys, Repair.keys ⟨idAt arena program, systemId arena system.collector,
      systemId arena system.idle⟩ = .ok keys := by
  have hsystem : ∀ position, ∃ key, (systemId arena position).key = .ok key := by
    intro position
    cases position with
    | none => exact ⟨_, rfl⟩
    | some position => exact exists_key_idAt hnames position
  obtain ⟨programKey, hprogram⟩ := exists_key_idAt hnames program
  obtain ⟨collectorKey, hcollector⟩ := hsystem system.collector
  obtain ⟨idleKey, hidle⟩ := hsystem system.idle
  refine ⟨[programKey, collectorKey, idleKey], ?_⟩
  simp only [Repair.keys, hprogram, hcollector, hidle, ok_bind]
  rfl

/-- Samples that are ids of the tree can be repaired. -/
theorem exists_repair (hnames : namesOf arena = .ok names) (system : SystemNodes)
    {samples : List (Value α)} (hids : ∀ id ∈ samples, ∃ call ∈ arena.labels, call.id = id) :
    ∃ repaired count, repair arena names system samples = .ok (repaired, count) := by
  unfold repair
  cases system.program with
  | none => exact ⟨_, _, rfl⟩
  | some program =>
    have hknown : ∀ id ∈ samples, Repair.Known (topOf arena names) id := by
      intro id hid
      obtain ⟨call, hcall, rfl⟩ := hids id hid
      obtain ⟨place, -, hplace⟩ := exists_position hnames hcall
      exact ⟨exists_key_of_label hnames hcall, _, bind_eq_ok.mpr ⟨place, hplace, rfl⟩⟩
    obtain ⟨count, hcount⟩ :=
      Repair.exists_run (exists_systemKeys hnames system program) hknown
    exact ⟨_, count, map_eq_ok.mpr ⟨count, hcount, rfl⟩⟩

/-! ## 2. Loaded models -/

/-- The ids of a contraction are names. -/
theorem exists_namesOf_of_ofNodes {nodes : List (Fields α)} {given start finish : Value α}
    {keepNatives : Bool} {contraction : Contraction α}
    (h : (Contraction.ofNodes (nodes.map .obj) given start finish keepNatives).2 =
      .ok contraction) :
    ∃ names, namesOf (contraction.tree.arrange Call.self) = .ok names := by
  refine exists_namesOf fun call hcall => ?_
  have hmem := (Tree.wellPlaced_arrange Call.self contraction.tree).2.mem_iff.mp hcall
  exact (Contraction.keys_of_ofNodes h).2 call hmem

/-- A model is made from the result of its contraction. -/
theorem Stages.of_model {recording : Recording α} {contraction : Contraction α}
    {model : Model α} (h : Stages recording contraction names model) :
    model.arena = contraction.tree.arrange Call.self ∧ model.names = names ∧
      model.totalHits = contraction.totalHits := by
  cases h with
  | bare => exact ⟨rfl, rfl, rfl⟩
  | sampled => exact ⟨rfl, rfl, rfl⟩

variable {recording : Recording α} {keepNatives : Bool} {model : Model α}

/-- **The ids of a model are those of the kept nodes of its recording, and none stands there
twice.** -/
theorem labels_of_ofRecording (h : ofRecording recording keepNatives = .ok model) :
    (model.arena.labels.map fun call => call.id.key).Nodup ∧
      ∀ id, id ∈ model.arena.labels.map (·.id) ↔
        Contraction.IsKept recording.nodes keepNatives id := by
  obtain ⟨contraction, names, hcontraction, -, hstages⟩ := ofRecording_eq_ok_iff.mp h
  obtain ⟨harena, -, -⟩ := hstages.of_model
  have hperm := (Tree.wellPlaced_arrange Call.self contraction.tree).2
  rw [harena]
  constructor
  · exact (hperm.map _).nodup_iff.mpr (Contraction.keys_of_ofNodes hcontraction).1
  · intro id
    rw [(hperm.map _).mem_iff]
    exact Contraction.mem_ids_iff_isKept hcontraction

omit [Scalar α] in
/-- An id of a model is that of the node at some place. -/
theorem exists_place_of_mem {id : Value α} (h : id ∈ arena.labels.map (·.id)) :
    ∃ place < arena.size, idAt arena place = id := by
  obtain ⟨call, hcall, rfl⟩ := List.mem_map.mp h
  obtain ⟨place, hplace⟩ := List.mem_iff_getElem?.mp hcall
  exact ⟨place, Arena.lt_size_of_label hplace, idAt_of_label hplace⟩

omit [Scalar α] in
theorem idAt_mem {place : Nat} (h : place < arena.size) :
    idAt arena place ∈ arena.labels.map (·.id) := by
  have hlabel : arena.labels[place]? = some arena[place].label := by
    rw [Arena.getElem?_labels, Array.getElem?_eq_getElem h, Option.map_some]
  rw [idAt_of_label hlabel]
  exact List.mem_map_of_mem (List.mem_of_getElem? hlabel)

/-- **The id of a kept node is found, and its node is the only one of that name.** -/
theorem byId_of_isKept (h : ofRecording recording keepNatives = .ok model) {id : Value α}
    (hkept : Contraction.IsKept recording.nodes keepNatives id) :
    ∃ position < model.arena.size, idAt model.arena position = id ∧
      model.byId id = .ok (some position) ∧
      ∀ place < model.arena.size, id.SameName (idAt model.arena place) → place = position := by
  obtain ⟨hnd, hmem⟩ := labels_of_ofRecording h
  have hnames := (sound_of_ofRecording h).names
  obtain ⟨position, hposition, rfl⟩ := exists_place_of_mem ((hmem id).mpr hkept)
  obtain ⟨key, hkey⟩ := exists_key_idAt hnames position
  have hfound := positionOf_of_place hnames hnd hposition ⟨key, hkey, hkey⟩
  refine ⟨position, hposition, rfl, hfound, fun place hplace hname => ?_⟩
  have hother := positionOf_of_place hnames hnd hplace hname
  rw [hfound] at hother
  exact (Option.some.inj (Except.ok.inj hother)).symm

/-- **Nothing is found for a value that names no kept node.** -/
theorem byId_of_not_isKept (h : ofRecording recording keepNatives = .ok model) {id : Value α}
    {key : Key} (hkey : id.key = .ok key)
    (hother : ∀ kept, Contraction.IsKept recording.nodes keepNatives kept → ¬ id.SameName kept) :
    model.byId id = .ok none := by
  obtain ⟨-, hmem⟩ := labels_of_ofRecording h
  have hlook : model.byId id = .ok (key.lookup model.names) := by
    rw [byId, positionOf, hkey, ok_bind]
    rfl
  cases hfound : key.lookup model.names with
  | none => rw [hlook, hfound]
  | some position =>
    rw [hfound] at hlook
    obtain ⟨hlt, hname⟩ := of_positionOf (sound_of_ofRecording h).names hlook
    exact absurd hname (hother _ ((hmem _).mp (idAt_mem hlt)))

end Model
end SampledProfile
