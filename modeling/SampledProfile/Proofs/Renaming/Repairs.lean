/-
# Repairing samples under other names

The nodes of a model are found under their new names where they were found before
(`Renaming.positionOf_names`), and the nodes that stand for the system are the same
(`Renaming.systemNodes_arena`).

The repair of missed samples asks whether a neighbour is one of the system.  Where a node of the
system is missing, minus one stands in for its id, and that id does not take part in a renaming.  So
the same samples are replaced as long as no sample has the id minus one under its old name and not
under its new one, or the other way round (`Renaming.repair_map`, with `Renaming.Spares`).
-/
import SampledProfile.Proofs.Arena.Labels
import SampledProfile.Proofs.Places
import SampledProfile.Proofs.Renaming.Trees

namespace SampledProfile

open Outcome

/-! ## 1. Replacing samples -/

namespace Repair

variable {α : Type} {g : Value α → Value α}
  {missed missed' : Value α → Value α → Value α → Except Fault Bool}

/-- Where the same questions have the same answers, the same samples are replaced. -/
theorem fromSample_map : ∀ (before sample : Value α) (rest : List (Value α)),
    (∀ first ∈ before :: sample :: rest, ∀ second ∈ before :: sample :: rest,
      ∀ third ∈ before :: sample :: rest,
        missed' (g first) (g second) (g third) = missed first second third) →
    fromSample missed' (g before) (g sample) (rest.map g) =
      ((fromSample missed before sample rest).1.map g, (fromSample missed before sample rest).2)
  | _, _, [], _ => rfl
  | before, sample, after :: rest, h => by
    have hrest := fromSample_map sample after rest
      fun first hfirst second hsecond third hthird =>
        h first (List.mem_cons_of_mem _ hfirst) second (List.mem_cons_of_mem _ hsecond) third
          (List.mem_cons_of_mem _ hthird)
    rw [List.map_cons, fromSample, fromSample, h before (by simp) sample (by simp) after (by simp)]
    cases missed before sample after with
    | error fault => rfl
    | ok replaced =>
      dsimp only
      rw [hrest]
      cases replaced <;> rfl

variable [Scalar α] {top' : Value α → Except Fault Nat} {ids ids' : SystemIds α}

theorem run_map (top : Value α → Except Fault Nat) {system system' : List Key}
    (hkeys : keys ids = .ok system) (hkeys' : keys ids' = .ok system') {samples : List (Value α)}
    (h : ∀ first ∈ samples, ∀ second ∈ samples, ∀ third ∈ samples,
      isMissed top' ids'.program system' (g first) (g second) (g third) =
        isMissed top ids.program system first second third) :
    run top' ids' (samples.map g) = ((run top ids samples).1.map g, (run top ids samples).2) := by
  match samples, h with
  | [], _ => rfl
  | [_], _ => rfl
  | [_, _], _ => rfl
  | first :: second :: third :: rest, h =>
    have hmap := fromSample_map _ _ _ h
    rw [List.map_cons] at hmap
    simp only [List.map_cons, run, hkeys, hkeys', hmap]

end Repair

namespace Renaming

open Model

variable {α : Type} [Scalar α] (r : Renaming α)

/-! ## 2. Finding nodes -/

/-- The arena with new names. -/
def arena (arena : Arena (Call α) α) : Arena (Call α) α := arena.mapLabels r.call

/-- The positions by new names. -/
def names (names : List (Key × Nat)) : List (Key × Nat) :=
  names.map fun entry => (r.key entry.1, entry.2)

theorem image_namesOf (arena : Arena (Call α) α) :
    Image r.names (namesOf arena) (namesOf (r.arena arena)) := by
  have hentries : (r.arena arena).toList.zipIdx =
      arena.toList.zipIdx.map (Prod.map (Slot.mapLabel r.call) id) := by
    rw [Renaming.arena, Arena.mapLabels, Array.toList_map, List.zipIdx_map]
  unfold namesOf
  rw [hentries]
  exact .mapM fun entry _ => (r.image_key entry.1.label.id).bind fun key _ => .ok (key, entry.2)

theorem idAt_arena (arena : Arena (Call α) α) (position : Nat) :
    idAt (r.arena arena) position = r.value (idAt arena position) := by
  rw [idAt, idAt, Renaming.arena, Arena.getElem?_mapLabels]
  cases arena[position]? with
  | none => exact r.value_null.symm
  | some slot => rfl

theorem systemNodes_arena (arena : Arena (Call α) α) :
    systemNodes (r.arena arena) = systemNodes arena := by
  unfold systemNodes Renaming.arena
  rw [Arena.children_mapLabels]
  refine congrArg (List.foldl · _ _) (funext fun nodes => funext fun position => ?_)
  rw [Arena.getElem?_mapLabels]
  cases arena[position]? <;> rfl

theorem positionOf_names (names : List (Key × Nat)) (v : Value α) :
    positionOf (r.names names) (r.value v) = positionOf names v := by
  unfold positionOf
  rw [key_value]
  cases v.key with
  | error fault => rfl
  | ok key =>
    have hlookup := r.lookup_map id key names
    rw [Option.map_id_apply] at hlookup
    exact congrArg Except.ok hlookup

theorem requirePosition_names (names : List (Key × Nat)) (v : Value α) :
    requirePosition (r.names names) (r.value v) = requirePosition names v := by
  rw [requirePosition, requirePosition, positionOf_names]

theorem topOf_names (arena : Arena (Call α) α) (names : List (Key × Nat)) (v : Value α) :
    topOf (r.arena arena) (r.names names) (r.value v) = topOf arena names v := by
  have hparent : (r.arena arena).parent? = arena.parent? := funext (Arena.parent?_mapLabels _ _)
  rw [topOf, topOf, requirePosition_names, hparent, Renaming.arena, Arena.size_mapLabels]

/-! ## 3. The repair -/

/-- A value has the id that stands in for a missing node of the system under both names or under
neither. -/
def Spares (v : Value α) : Prop := (r.value v).SameName (.int (-1)) ↔ v.SameName (.int (-1))

/-- The id of a node of the system, or what stands in for it, is met by a value under its new name
if it was met before. -/
theorem exists_systemId {arena : Arena (Call α) α} {names : List (Key × Nat)}
    (hnames : namesOf arena = .ok names) (position : Option Nat) :
    ∃ old new, (systemId arena position).key = .ok old ∧
      (systemId (r.arena arena) position).key = .ok new ∧
      ∀ (v : Value α) (key : Key), v.key = .ok key → position.isSome ∨ r.Spares v →
        (r.key key = new ↔ key = old) := by
  cases position with
  | some position =>
    obtain ⟨old, hold⟩ := exists_key_idAt hnames position
    refine ⟨old, r.key old, hold, ?_, fun v key hkey _ => r.key_injective.eq_iff⟩
    rw [systemId, idAt_arena, key_value, hold]
    rfl
  | none =>
    -- what stands in has no new name, so only what is spared meets it as before
    refine ⟨_, _, rfl, rfl, fun v key hkey hspares => ?_⟩
    have hsame : ∀ {w : Value α} {k : Key}, w.key = .ok k →
        (w.SameName (.int (-1)) ↔ k = .number (Scalar.exact (Scalar.ofInt (-1) : α))) := by
      intro w k hw
      constructor
      · rintro ⟨other, hother, hint⟩
        rw [hw] at hother
        cases hother
        exact (Except.ok.inj hint).symm
      · rintro rfl
        exact ⟨_, hw, rfl⟩
    have hnew : (r.value v).key = .ok (r.key key) := by
      rw [key_value, hkey]
      rfl
    exact (hsame hnew).symm.trans ((hspares.resolve_left nofun).trans (hsame hkey))

theorem isMissed_map {top top' : Value α → Except Fault Nat} (htop : ∀ v, top' (r.value v) = top v)
    {program before sample after : Value α} {system system' : List Key}
    (hsample : (r.value sample).equals (r.value program) = sample.equals program)
    (hsystem : ∀ v, v = before ∨ v = after → ∀ key, v.key = .ok key →
      system'.contains (r.key key) = system.contains key) :
    Repair.isMissed top' (r.value program) system' (r.value before) (r.value sample)
        (r.value after) =
      Repair.isMissed top program system before sample after := by
  unfold Repair.isMissed
  rw [hsample, key_value, key_value, htop, htop]
  split
  · rfl
  · cases hbefore : before.key with
    | error fault => rfl
    | ok key =>
      simp only [Except.map, ok_bind, hsystem before (.inl rfl) key hbefore]
      split
      · rfl
      · cases hafter : after.key with
        | error fault => rfl
        | ok other => simp only [ok_bind, hsystem after (.inr rfl) other hafter]

/-- **The same samples are replaced under new names, unless one has or is given the id that stands
in for a missing node of the system.** -/
theorem repair_map {arena : Arena (Call α) α} {names : List (Key × Nat)}
    (hnames : namesOf arena = .ok names) (system : SystemNodes) {samples : List (Value α)}
    (hkeys : ∀ v ∈ samples, ∃ key, v.key = .ok key)
    (hspares : system.program = none ∨ SystemNodes.complete system = true ∨
      ∀ v ∈ samples, r.Spares v) :
    repair (r.arena arena) (r.names names) system (samples.map r.value) =
      (repair arena names system samples).map fun result => (result.1.map r.value, result.2) := by
  unfold repair
  cases hprogram : system.program with
  | none => rfl
  | some program =>
    obtain ⟨programKey, hprogramKey⟩ := exists_key_idAt hnames program
    obtain ⟨collector, collector', hcollector, hcollector', hsameCollector⟩ :=
      r.exists_systemId hnames system.collector
    obtain ⟨idle, idle', hidle, hidle', hsameIdle⟩ := r.exists_systemId hnames system.idle
    have hold : Repair.keys ⟨idAt arena program, systemId arena system.collector,
        systemId arena system.idle⟩ = .ok [programKey, collector, idle] := by
      rw [Repair.keys, hprogramKey, hcollector, hidle]
      rfl
    have hnew : Repair.keys ⟨idAt (r.arena arena) program,
        systemId (r.arena arena) system.collector, systemId (r.arena arena) system.idle⟩ =
          .ok [r.key programKey, collector', idle'] := by
      rw [Repair.keys, idAt_arena, key_value, hprogramKey, hcollector', hidle']
      rfl
    have hgiven : ∀ v ∈ samples, (system.collector.isSome ∨ r.Spares v) ∧
        (system.idle.isSome ∨ r.Spares v) := by
      intro v hv
      rcases hspares with hnone | hcomplete | hspares
      · rw [hprogram] at hnone
        cases hnone
      · simp only [SystemNodes.complete, Bool.and_eq_true] at hcomplete
        exact ⟨.inl hcomplete.1.1, .inl hcomplete.2⟩
      · exact ⟨.inr (hspares v hv), .inr (hspares v hv)⟩
    have hmet : ∀ v ∈ samples, ∀ key, v.key = .ok key →
        [r.key programKey, collector', idle'].contains (r.key key) =
          [programKey, collector, idle].contains key := by
      intro v hv key hkey
      rw [Bool.eq_iff_iff, List.contains_iff_mem, List.contains_iff_mem]
      simp only [List.mem_cons, List.not_mem_nil, or_false, r.key_injective.eq_iff,
        hsameCollector v key hkey (hgiven v hv).1, hsameIdle v key hkey (hgiven v hv).2]
    dsimp only
    rw [Repair.run_map (topOf arena names) hold hnew
      fun first hfirst second hsecond third hthird => by
      obtain ⟨key, hkey⟩ := hkeys second hsecond
      rw [idAt_arena]
      refine r.isMissed_map (r.topOf_names arena names) (r.equals_value hkey hprogramKey) ?_
      rintro v (rfl | rfl)
      · exact hmet v hfirst
      · exact hmet v hthird]
    cases (Repair.run (topOf arena names) ⟨idAt arena program, systemId arena system.collector,
      systemId arena system.idle⟩ samples).2 <;> rfl

end Renaming
end SampledProfile
