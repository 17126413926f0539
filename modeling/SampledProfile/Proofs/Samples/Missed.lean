/-
# Repair is one simultaneous rewrite

`Repair.run` goes through the samples from the first to the last, and looks at every one with the
samples before and after it as they were recorded.  So it is no matter in what order samples are
replaced, and what the outcome holds can be said of each position by itself:

* `Missed` says when a sample between two others was missed;
* `Simultaneous` says what a list is whose missed samples all give way at once to the ones before
  them, and that is what the repair makes (`exists_simultaneous`);
* a second repair finds nothing (`not_at_of_simultaneous`): what is still a missed sample has
  neighbours that were no missed ones, so it would have been one the first time.
-/
import Mathlib.Data.Set.Card
import SampledProfile.Model
import SampledProfile.Proofs.Arena.Tops
import SampledProfile.Proofs.Renaming.Basic
import SampledProfile.Proofs.Samples.Stream

namespace SampledProfile

open Outcome

/-- Where all three values are names, equal ones are the same name. -/
theorem Value.sameName_of_equals {v other : Value Number} {key otherKey : Key}
    (hv : v.key = .ok key) (hother : other.key = .ok otherKey) (h : v.equals other = true) :
    v.SameName other := by
  rw [Renaming.equals_eq hv hother, Bool.and_eq_true, decide_eq_true_eq] at h
  obtain ⟨-, rfl⟩ := h
  exact ⟨key, hv, hother⟩

namespace Repair

/-! ## 1. Rewriting at once -/

section Simultaneous

variable {α : Type} {missed : Value α → Value α → Value α → Prop}
  {samples repaired : List (Value α)}

/-- The sample at an index lies between two others and was missed. -/
def At (missed : Value α → Value α → Value α → Prop) (samples : List (Value α)) (index : Nat) :
    Prop :=
  0 < index ∧ ∃ before sample after, samples[index - 1]? = some before ∧
    samples[index]? = some sample ∧ samples[index + 1]? = some after ∧ missed before sample after

/-- At the positions of missed samples there is the recorded one before them, everywhere else the
recorded one. -/
structure Simultaneous (missed : Value α → Value α → Value α → Prop)
    (samples repaired : List (Value α)) : Prop where
  length : repaired.length = samples.length
  replaced : ∀ index, At missed samples index → repaired[index]? = samples[index - 1]?
  kept : ∀ index, ¬ At missed samples index → repaired[index]? = samples[index]?

theorem At.lt_length {index : Nat} (h : At missed samples index) : index + 1 < samples.length := by
  obtain ⟨-, _, _, _, -, -, hafter, -⟩ := h
  exact (List.getElem?_eq_some_iff.mp hafter).1

theorem finite_at (missed : Value α → Value α → Value α → Prop) (samples : List (Value α)) :
    {index | At missed samples index}.Finite := by
  refine (Set.finite_lt_nat samples.length).subset fun index hindex => ?_
  exact Nat.lt_of_succ_lt hindex.lt_length

theorem ncard_at_eq_zero (hnone : ∀ index, ¬ At missed samples index) :
    {index | At missed samples index}.ncard = 0 := by
  have hempty : {index | At missed samples index} = ∅ := Set.eq_empty_of_forall_notMem hnone
  rw [hempty, Set.ncard_empty]

/-- Of fewer than three samples none is missed. -/
theorem simultaneous_self (h : samples.length < 3) :
    Simultaneous missed samples samples ∧ {index | At missed samples index}.ncard = 0 := by
  have hnone : ∀ index, ¬ At missed samples index := by
    intro index hat
    have hpos := hat.1
    have hlt := hat.lt_length
    omega
  exact ⟨⟨rfl, fun index hat => absurd hat (hnone index), fun _ _ => rfl⟩, ncard_at_eq_zero hnone⟩

theorem at_one {before sample after : Value α} {rest : List (Value α)} :
    At missed (before :: sample :: after :: rest) 1 ↔ missed before sample after := by
  constructor
  · rintro ⟨-, _, _, _, hbefore, hsample, hafter, hmissed⟩
    cases hbefore
    cases hsample
    cases hafter
    exact hmissed
  · intro hmissed
    exact ⟨Nat.one_pos, _, _, _, rfl, rfl, rfl, hmissed⟩

theorem at_cons {first : Value α} {index : Nat} (hindex : 0 < index) :
    At missed (first :: samples) (index + 1) ↔ At missed samples index := by
  obtain ⟨index, rfl⟩ := Nat.exists_eq_succ_of_ne_zero (Nat.ne_of_gt hindex)
  exact Iff.and (by simp) Iff.rfl

/-- A sample in front may make the first one that lies between two others a missed one. -/
theorem setOf_at_cons {before sample after : Value α} {rest : List (Value α)} :
    {index | At missed (before :: sample :: after :: rest) index} =
      {index | index = 1 ∧ missed before sample after} ∪
        Nat.succ '' {index | At missed (sample :: after :: rest) index} := by
  ext index
  match index with
  | 0 => simp [At]
  | 1 => simp [At]
  | index + 2 =>
    have hcons : At missed (before :: sample :: after :: rest) (index + 2) ↔
        At missed (sample :: after :: rest) (index + 1) := at_cons (Nat.succ_pos index)
    simp [hcons]

theorem ncard_at_cons {before sample after : Value α} {rest : List (Value α)} {replaced : Bool}
    (hreplaced : replaced = true ↔ missed before sample after) :
    {index | At missed (before :: sample :: after :: rest) index}.ncard =
      {index | At missed (sample :: after :: rest) index}.ncard + if replaced then 1 else 0 := by
  rw [setOf_at_cons]
  have hlater : (Nat.succ '' {index | At missed (sample :: after :: rest) index}).ncard =
      {index | At missed (sample :: after :: rest) index}.ncard :=
    Set.ncard_image_of_injective _ Nat.succ_injective
  by_cases hmissed : missed before sample after
  · have hone : 1 ∉ Nat.succ '' {index | At missed (sample :: after :: rest) index} := by
      rintro ⟨index, hindex, hsucc⟩
      have hpos : 0 < index := hindex.1
      omega
    have hset : {index : Nat | index = 1 ∧ missed before sample after} = {1} := by
      simp [hmissed]
    rw [hset, Set.singleton_union, Set.ncard_insert_of_notMem hone ((finite_at _ _).image _),
      hlater, if_pos (hreplaced.mpr hmissed)]
  · have hset : {index : Nat | index = 1 ∧ missed before sample after} = ∅ := by
      simp [hmissed]
    rw [hset, Set.empty_union, hlater, if_neg fun hyes => hmissed (hreplaced.mp hyes), Nat.add_zero]

/-- A sample in front of samples that are rewritten at once. -/
theorem Simultaneous.cons {before sample after : Value α} {rest : List (Value α)} {replaced : Bool}
    (h : Simultaneous missed (sample :: after :: rest) (sample :: repaired))
    (hreplaced : replaced = true ↔ missed before sample after) :
    Simultaneous missed (before :: sample :: after :: rest)
      (before :: (if replaced then before else sample) :: repaired) := by
  refine ⟨congrArg Nat.succ h.length, fun index hat => ?_, fun index hat => ?_⟩
  · match index with
    | 0 => exact absurd hat.1 (Nat.lt_irrefl 0)
    | 1 =>
      have hyes : replaced = true := hreplaced.mpr (at_one.mp hat)
      rw [if_pos hyes]
      rfl
    | index + 2 => exact h.replaced (index + 1) ((at_cons (Nat.succ_pos index)).mp hat)
  · match index with
    | 0 => rfl
    | 1 =>
      have hno : ¬ replaced = true := fun hyes => hat (at_one.mpr (hreplaced.mp hyes))
      rw [if_neg hno]
      rfl
    | index + 2 =>
      exact h.kept (index + 1) fun hlater => hat ((at_cons (Nat.succ_pos index)).mpr hlater)

/-- No sample comes in. -/
theorem Simultaneous.subset (h : Simultaneous missed samples repaired) {id : Value α}
    (hid : id ∈ repaired) : id ∈ samples := by
  obtain ⟨index, hindex⟩ := List.mem_iff_getElem?.mp hid
  by_cases hat : At missed samples index
  · rw [h.replaced index hat] at hindex
    exact List.mem_of_getElem? hindex
  · rw [h.kept index hat] at hindex
    exact List.mem_of_getElem? hindex

/-- Where nothing was missed nothing changes. -/
theorem Simultaneous.eq_self (h : Simultaneous missed samples repaired)
    (hnone : ∀ index, ¬ At missed samples index) : repaired = samples :=
  List.ext_getElem? fun index => h.kept index (hnone index)

/-- Missed samples are of the system, and their neighbours are not. -/
def StandAlone (system : Value α → Prop) (missed : Value α → Value α → Value α → Prop)
    (samples : List (Value α)) : Prop :=
  ∀ before, ∀ sample ∈ samples, ∀ after, missed before sample after →
    system sample ∧ ¬ system before ∧ ¬ system after

variable {system : Value α → Prop}

/-- Beside a sample of the system none was missed. -/
theorem not_at_beside (halone : StandAlone system missed samples) {index : Nat}
    {sample : Value α} (hpos : 0 < index) (hsample : samples[index]? = some sample)
    (hsystem : system sample) :
    ¬ At missed samples (index - 1) ∧ ¬ At missed samples (index + 1) := by
  constructor
  · rintro ⟨-, earlier, old, later, -, hold, hlater, hgone⟩
    obtain ⟨-, -, hnot⟩ := halone earlier old (List.mem_of_getElem? hold) later hgone
    rw [Nat.sub_add_cancel hpos, hsample] at hlater
    cases hlater
    exact hnot hsystem
  · rintro ⟨-, earlier, old, later, hearlier, hold, -, hgone⟩
    obtain ⟨-, hnot, -⟩ := halone earlier old (List.mem_of_getElem? hold) later hgone
    rw [Nat.add_sub_cancel, hsample] at hearlier
    cases hearlier
    exact hnot hsystem

/-- **What was rewritten at once has no missed samples, if missed ones stand for the system and no
neighbour of theirs does.** -/
theorem not_at_of_simultaneous (halone : StandAlone system missed samples)
    (h : Simultaneous missed samples repaired) (index : Nat) : ¬ At missed repaired index := by
  rintro ⟨hpos, before, sample, after, hbefore, hsample, hafter, hstill⟩
  obtain ⟨hsystem, -, -⟩ :=
    halone before sample (h.subset (List.mem_of_getElem? hsample)) after hstill
  -- the sample itself was not replaced, since what replaces one does not stand for the system
  have hkept : ¬ At missed samples index := by
    intro hat
    have hreplaced := h.replaced index hat
    obtain ⟨-, earlier, old, later, hearlier, hold, -, hgone⟩ := hat
    obtain ⟨-, hnot, -⟩ := halone earlier old (List.mem_of_getElem? hold) later hgone
    rw [hsample, hearlier] at hreplaced
    cases hreplaced
    exact hnot hsystem
  have hself : samples[index]? = some sample := (h.kept index hkept).symm.trans hsample
  -- so its neighbours were not replaced either
  obtain ⟨hprevious, hnext⟩ := not_at_beside halone hpos hself hsystem
  rw [h.kept _ hprevious] at hbefore
  rw [h.kept _ hnext] at hafter
  exact hkept ⟨hpos, before, sample, after, hbefore, hself, hafter, hstill⟩

/-- Around a replaced sample there are the recorded ones, and the first of them twice. -/
theorem Simultaneous.around (halone : StandAlone system missed samples)
    (h : Simultaneous missed samples repaired) {index : Nat} (hat : At missed samples index) :
    ∃ before sample after, missed before sample after ∧ repaired[index - 1]? = some before ∧
      repaired[index]? = some before ∧ repaired[index + 1]? = some after := by
  have hreplaced := h.replaced index hat
  obtain ⟨hpos, before, sample, after, hbefore, hsample, hafter, hgone⟩ := hat
  obtain ⟨hsystem, -, -⟩ := halone before sample (List.mem_of_getElem? hsample) after hgone
  obtain ⟨hprevious, hnext⟩ := not_at_beside halone hpos hsample hsystem
  refine ⟨before, sample, after, hgone, ?_, ?_, ?_⟩
  · rw [h.kept _ hprevious, hbefore]
  · rw [hreplaced, hbefore]
  · rw [h.kept _ hnext, hafter]

end Simultaneous

/-! ## 2. The walk -/

section Walk

variable {α : Type} {missed : Value α → Value α → Value α → Prop}
  {asked : Value α → Value α → Value α → Except Fault Bool}

/-- The question has an answer for all of some samples, and it is the right one. -/
def Answers (asked : Value α → Value α → Value α → Except Fault Bool)
    (missed : Value α → Value α → Value α → Prop) (samples : List (Value α)) : Prop :=
  ∀ before ∈ samples, ∀ sample ∈ samples, ∀ after ∈ samples, ∃ answer,
    asked before sample after = .ok answer ∧ (answer = true ↔ missed before sample after)

theorem Answers.tail {first : Value α} {samples : List (Value α)}
    (h : Answers asked missed (first :: samples)) : Answers asked missed samples :=
  fun before hbefore sample hsample after hafter =>
    h before (List.mem_cons_of_mem _ hbefore) sample (List.mem_cons_of_mem _ hsample) after
      (List.mem_cons_of_mem _ hafter)

/-- The walk rewrites at once. -/
theorem simultaneous_fromSample : ∀ {before sample : Value α} {rest : List (Value α)},
    Answers asked missed (before :: sample :: rest) →
    ∃ repaired, fromSample asked before sample rest =
        (repaired, .ok {index | At missed (before :: sample :: rest) index}.ncard) ∧
      Simultaneous missed (before :: sample :: rest) (before :: repaired)
  | before, sample, [], _ => by
    obtain ⟨hself, hcount⟩ : Simultaneous missed [before, sample] [before, sample] ∧ _ :=
      simultaneous_self (by simp)
    exact ⟨[sample], by rw [hcount]; rfl, hself⟩
  | before, sample, after :: rest, hanswers => by
    obtain ⟨answer, hasked, hanswer⟩ :=
      hanswers before (by simp) sample (by simp) after (by simp)
    obtain ⟨repaired, hrest, hsimultaneous⟩ := simultaneous_fromSample hanswers.tail
    refine ⟨(if answer then before else sample) :: repaired, ?_, hsimultaneous.cons hanswer⟩
    rw [fromSample, hasked, hrest, ncard_at_cons hanswer]
    rfl

end Walk

/-! ## 3. Samples of a tree -/

section Trees

variable {β γ α : Type} [Scalar α]

/-- The top-level node of an id, in an arena whose nodes are found by a function. -/
def topBy (arena : Arena β γ) (find : Value α → Except Fault Nat) (id : Value α) :
    Except Fault Nat := do
  return Arena.topFrom arena.parent? arena.size (← find id)

/-- The id names one of the three nodes that stand for the system. -/
def IsSystem (ids : SystemIds α) (id : Value α) : Prop :=
  id.SameName ids.program ∨ id.SameName ids.collector ∨ id.SameName ids.idle

/-- A sample between two others was missed: it is of the program, neither neighbour is of the
system, and the nodes of the neighbours have one top-level node. -/
structure Missed (arena : Arena β γ) (find : Value α → Except Fault Nat) (ids : SystemIds α)
    (before sample after : Value α) : Prop where
  program : sample.equals ids.program = true
  previous : ¬ IsSystem ids before
  next : ¬ IsSystem ids after
  top : ∃ node other top, find before = .ok node ∧ find after = .ok other ∧
    arena.IsTop node top ∧ arena.IsTop other top

/-- An id that can be looked up and is that of a node. -/
def Resolves (arena : Arena β γ) (find : Value α → Except Fault Nat) (id : Value α) : Prop :=
  (∃ key, id.key = .ok key) ∧ ∃ node < arena.size, find id = .ok node

variable {arena : Arena β γ} {find : Value α → Except Fault Nat} {ids : SystemIds α}
  {system : List Key} {samples : List (Value α)}

theorem contains_keys_iff (hkeys : keys ids = .ok system) {id : Value α} {key : Key}
    (hkey : id.key = .ok key) : system.contains key = true ↔ IsSystem ids id := by
  obtain ⟨program, hprogram, hkeys⟩ := bind_eq_ok.mp hkeys
  obtain ⟨collector, hcollector, hkeys⟩ := bind_eq_ok.mp hkeys
  obtain ⟨idle, hidle, hkeys⟩ := bind_eq_ok.mp hkeys
  obtain rfl := pure_eq_ok.mp hkeys
  have hsame : ∀ {other : Value α} {otherKey : Key}, other.key = .ok otherKey →
      (key = otherKey ↔ id.SameName other) := by
    intro other otherKey hother
    constructor
    · rintro rfl
      exact ⟨key, hkey, hother⟩
    · rintro ⟨common, hid, hcommon⟩
      rw [hkey] at hid
      rw [hother] at hcommon
      rw [Except.ok.inj hid, Except.ok.inj hcommon]
  simp only [List.contains_iff_mem, List.mem_cons, List.not_mem_nil, or_false, hsame hprogram,
    hsame hcollector, hsame hidle, IsSystem]

/-- The question whether a sample was missed, where all that it asks has an answer. -/
theorem isMissed_eq {top : Value α → Except Fault Nat} {program before sample after : Value α}
    {key otherKey : Key} {node other : Nat} (hkey : before.key = .ok key)
    (hotherKey : after.key = .ok otherKey) (htop : top before = .ok node)
    (hotherTop : top after = .ok other) :
    isMissed top program system before sample after =
      .ok (sample.equals program && !system.contains key && !system.contains otherKey &&
        decide (node = other)) := by
  simp only [isMissed, hkey, hotherKey, htop, hotherTop, ok_bind]
  cases sample.equals program <;> cases system.contains key <;>
    cases system.contains otherKey <;> rfl

/-- Samples of one tree can be asked whether they were missed. -/
theorem answers_isMissed (h : arena.WellPlaced) (hkeys : keys ids = .ok system)
    (hsamples : ∀ id ∈ samples, Resolves arena find id) :
    Answers (isMissed (topBy arena find) ids.program system) (Missed arena find ids) samples := by
  intro before hbefore sample _ after hafter
  obtain ⟨⟨key, hkey⟩, node, hnode, hfind⟩ := hsamples before hbefore
  obtain ⟨⟨otherKey, hotherKey⟩, other, hother, hotherFind⟩ := hsamples after hafter
  have htop : topBy arena find before = .ok (Arena.topFrom arena.parent? arena.size node) := by
    rw [topBy, hfind]
    rfl
  have hotherTop : topBy arena find after = .ok (Arena.topFrom arena.parent? arena.size other) := by
    rw [topBy, hotherFind]
    rfl
  refine ⟨_, isMissed_eq hkey hotherKey htop hotherTop, ?_⟩
  simp only [Bool.and_eq_true, Bool.not_eq_true', ← Bool.not_eq_true, decide_eq_true_eq,
    contains_keys_iff hkeys hkey, contains_keys_iff hkeys hotherKey]
  constructor
  · rintro ⟨⟨⟨hprogram, hprevious⟩, hnext⟩, hsame⟩
    exact ⟨hprogram, hprevious, hnext, node, other, _, hfind, hotherFind,
      (h.topFrom_eq_iff hnode).mp hsame, (h.topFrom_eq_iff hother).mp rfl⟩
  · intro hmissed
    obtain ⟨_, _, top, hnodeFind, hlaterFind, hnodeTop, hlaterTop⟩ := hmissed.top
    obtain rfl := Except.ok.inj (hfind.symm.trans hnodeFind)
    obtain rfl := Except.ok.inj (hotherFind.symm.trans hlaterFind)
    rw [(h.topFrom_eq_iff hnode).mpr hnodeTop, (h.topFrom_eq_iff hother).mpr hlaterTop]
    exact ⟨⟨⟨hmissed.program, hmissed.previous⟩, hmissed.next⟩, rfl⟩

omit [Scalar α] in
theorem exists_cons_of_length {samples : List (Value α)} (h : 3 ≤ samples.length) :
    ∃ first second third rest, samples = first :: second :: third :: rest := by
  match samples, h with
  | first :: second :: third :: rest, _ => exact ⟨first, second, third, rest, rfl⟩

theorem run_eq_self {top : Value α → Except Fault Nat} (h : samples.length < 3) :
    run top ids samples = (samples, .ok 0) := by
  match samples, h with
  | [], _ => rfl
  | [_], _ => rfl
  | [_, _], _ => rfl

/-- The repair rewrites at once, and tells how many samples were missed. -/
theorem exists_simultaneous (h : arena.WellPlaced) (hkeys : ∃ system, keys ids = .ok system)
    (hsamples : ∀ id ∈ samples, Resolves arena find id) :
    ∃ repaired, run (topBy arena find) ids samples =
        (repaired, .ok {index | At (Missed arena find ids) samples index}.ncard) ∧
      Simultaneous (Missed arena find ids) samples repaired := by
  rcases Nat.lt_or_ge samples.length 3 with hfew | hmany
  · obtain ⟨hself, hcount⟩ : Simultaneous (Missed arena find ids) samples samples ∧ _ :=
      simultaneous_self hfew
    exact ⟨samples, by rw [run_eq_self hfew, hcount], hself⟩
  · obtain ⟨system, hkeys⟩ := hkeys
    obtain ⟨first, second, third, rest, rfl⟩ := exists_cons_of_length hmany
    obtain ⟨repaired, hwalk, hsimultaneous⟩ :=
      simultaneous_fromSample (answers_isMissed h hkeys hsamples)
    refine ⟨first :: repaired, ?_, hsimultaneous⟩
    rw [run, hkeys]
    simp only [hwalk]

end Trees

/-! ## 4. A second repair -/

section Again

variable {β γ : Type} {arena : Arena β γ} {find : Value Number → Except Fault Nat}
  {ids : SystemIds Number} {samples repaired : List (Value Number)}

/-- A missed sample is one of the program, its neighbours are not of the system. -/
theorem standAlone (hkeys : ∃ system, keys ids = .ok system)
    (hsamples : ∀ id ∈ samples, Resolves arena find id) :
    StandAlone (IsSystem ids) (Missed arena find ids) samples := by
  intro before sample hsample after hmissed
  obtain ⟨system, hkeys⟩ := hkeys
  obtain ⟨program, hprogram, -⟩ := bind_eq_ok.mp hkeys
  obtain ⟨⟨key, hkey⟩, -⟩ := hsamples sample hsample
  have hsame : sample.SameName ids.program :=
    Value.sameName_of_equals hkey hprogram hmissed.program
  exact ⟨.inl hsame, hmissed.previous, hmissed.next⟩

/-- **Repair is one simultaneous rewrite, and a second one finds nothing to do**, for samples that
are ids of the nodes of a tree, and any three ids that stand for the system. -/
theorem simultaneous_run (h : arena.WellPlaced) (hkeys : ∃ system, keys ids = .ok system)
    (hsamples : ∀ id ∈ samples, Resolves arena find id) :
    ∃ repaired, run (topBy arena find) ids samples =
        (repaired, .ok {index | At (Missed arena find ids) samples index}.ncard) ∧
      Simultaneous (Missed arena find ids) samples repaired ∧
      run (topBy arena find) ids repaired = (repaired, .ok 0) := by
  obtain ⟨repaired, hrun, hsimultaneous⟩ := exists_simultaneous h hkeys hsamples
  refine ⟨repaired, hrun, hsimultaneous, ?_⟩
  have hnone : ∀ index, ¬ At (Missed arena find ids) repaired index :=
    not_at_of_simultaneous (standAlone hkeys hsamples) hsimultaneous
  obtain ⟨again, hagain, hrewritten⟩ :=
    exists_simultaneous h hkeys fun id hid => hsamples id (hsimultaneous.subset hid)
  obtain rfl := hrewritten.eq_self hnone
  rw [hagain, ncard_at_eq_zero hnone]

end Again

/-- A call inside of another one, and the program. -/
def splitCall : Arena Nat Rat :=
  Tree.arrange (fun _ => 0) (.node 1 [.node 2 [.node 3 []], .node 4 []])

/-- Finds these nodes by their ids. -/
def findSplit : Value Number → Except Fault Nat :=
  Model.requirePosition [(.number (.finite 1), 0), (.number (.finite 2), 1),
    (.number (.finite 4), 2), (.number (.finite 3), 3)]

theorem simultaneous_run_splitCall :
    ∃ repaired, run (topBy splitCall findSplit) ⟨.int 4, .int (-1), .int (-1)⟩
        [.int 2, .int 4, .int 3, .int 4, .int 4, .int 2] = (repaired, .ok 1) ∧
      run (topBy splitCall findSplit) ⟨.int 4, .int (-1), .int (-1)⟩ repaired =
        (repaired, .ok 0) := by
  have hplaced : splitCall.WellPlaced := (Tree.wellPlaced_arrange _ _).1
  have hresolves : ∀ id ∈ ([.int 2, .int 4, .int 3, .int 4, .int 4, .int 2] : List (Value Number)),
      Resolves splitCall findSplit id := by
    have hsize : splitCall.size = 4 := by decide +kernel
    intro id hid
    have hcases : id = .int 2 ∨ id = .int 4 ∨ id = .int 3 := by
      simp only [List.mem_cons, List.not_mem_nil, or_false] at hid
      tauto
    rcases hcases with rfl | rfl | rfl
    · exact ⟨⟨_, rfl⟩, 1, by omega, by decide +kernel⟩
    · exact ⟨⟨_, rfl⟩, 2, by omega, by decide +kernel⟩
    · exact ⟨⟨_, rfl⟩, 3, by omega, by decide +kernel⟩
  have hcount : (run (topBy splitCall findSplit) ⟨.int 4, .int (-1), .int (-1)⟩
      [.int 2, .int 4, .int 3, .int 4, .int 4, .int 2]).2 = .ok 1 := by
    decide +kernel
  have hkeys : ∃ system, keys (⟨.int 4, .int (-1), .int (-1)⟩ : SystemIds Number) = .ok system :=
    ⟨_, rfl⟩
  obtain ⟨repaired, hrun, -, hagain⟩ := simultaneous_run hplaced hkeys hresolves
  have hrepaired : (run (topBy splitCall findSplit) ⟨.int 4, .int (-1), .int (-1)⟩
      [.int 2, .int 4, .int 3, .int 4, .int 4, .int 2]).1 = repaired := by
    rw [hrun]
  exact ⟨repaired, Prod.ext hrepaired hcount, hagain⟩

end Repair
end SampledProfile
