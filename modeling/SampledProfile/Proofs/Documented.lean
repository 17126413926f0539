/-
# What a documented profile is refused for

Every field of a profile may be absent, of the profile itself as well as of every node in it.  A
profile is DOCUMENTED (`Documented`) if the fields that are there are of the kinds that the two formats
give them.  What is wrong with such a profile is found by a check and reported as malformed, or it is a
number that grows beyond the largest double on the way.

There is one exception.  Whether nodes have ids is checked when a table is made of the list of nodes.
In the legacy format the ids of nested nodes are taken before, when the nodes are put in that list, and
an id that is absent there is a missing field.  So a documented profile has a missing field exactly when
a node nested in another one has no id (`Model.load_documented`); the same nodes in the current format
are malformed (`Model.load_nestedUnnamed`).
-/
import SampledProfile.Proofs.Recording.Heads
import SampledProfile.Proofs.Recording.Mass

namespace SampledProfile

open Outcome Contraction SampledProfile.Tree

/-! ## 1. Documented profiles -/

/-- The entries of a list, and none of what is no list. -/
def Value.entries {α : Type} : Value α → List (Value α)
  | .list items => items
  | _ => []

/-- A list of such values, if it is given. -/
def Value.ListOf {α : Type} (P : Value α → Prop) (v : Value α) : Prop :=
  v = .null ∨ ∃ items, v = .list items ∧ ∀ item ∈ items, P item

namespace Recording

/-- A profile of which every field is of its kind, as far as it is given.  Its head holds nested nodes,
none if there is no head, and its list of nodes flat ones. -/
structure Documented {α : Type} [Scalar α] (profile : Fields α) (heads : List (Tree (Fields α)))
    (flat : List (Fields α)) : Prop where
  head : Nests (profile.get "head").given?.toList heads
  nested : ∀ node ∈ labelsAll heads, IsNode node
  nodes : profile.get "nodes" = .null ∧ flat = [] ∨ profile.get "nodes" = .list (flat.map .obj)
  listed : ∀ node ∈ flat, IsFlatNode node
  start : ∀ value, profile.get? "startTime" = some value → ∃ x, value = .num x
  finish : ∀ value, profile.get? "endTime" = some value → ∃ x, value = .num x
  timestamps : (profile.get "timestamps").ListOf fun time => ∃ x, time = .num x
  timeDeltas : (profile.get "timeDeltas").ListOf fun delta => ∃ x, delta = .num x
  samples : (profile.get "samples").ListOf Value.CanName

/-- The sizes of all numbers of a list together. -/
def sumOfMasses (values : List (Value Number)) : Nat := (values.map Value.mass).sum

/-- How large sums of the numbers of a profile can get: its span in the smaller unit, its times, and
its hits, to which samples may add. -/
def massOf (profile : Fields Number) (heads : List (Tree (Fields Number)))
    (flat : List (Fields Number)) : Nat :=
  1000 * (1 + (profile.get "startTime").mass + (profile.get "endTime").mass) +
    sumOfMasses (profile.get "timestamps").entries +
    sumOfMasses (profile.get "timeDeltas").entries +
    hitMass (labelsAll heads) + hitMass flat + (profile.get "samples").entries.length

/-! ## 2. Reading fields -/

variable {profile : Fields Number} {mass : Nat}

/-- A number that is not given is zero. -/
theorem exists_number {name : String}
    (h : ∀ value, profile.get? name = some value → ∃ x, value = .num x) :
    ∃ x, profile.getD name (.int 0) = .num x ∧ x.size ≤ (profile.get name).mass := by
  unfold Fields.getD Fields.get
  cases hfield : profile.get? name with
  | none => exact ⟨.int 0, rfl, Nat.zero_le _⟩
  | some value =>
    obtain ⟨x, rfl⟩ := h value hfield
    exact ⟨x, rfl, Nat.le_refl _⟩

/-- A number of a list is no larger than all of them together. -/
theorem exists_number_of_mem {values : List (Value Number)} {value : Value Number}
    (h : ∀ value ∈ values, ∃ x, value = .num x) (hmass : sumOfMasses values ≤ mass)
    (hvalue : value ∈ values) : ∃ x, value = .num x ∧ x.size ≤ mass := by
  obtain ⟨x, rfl⟩ := h value hvalue
  exact ⟨x, rfl, (List.le_sum_of_mem (List.mem_map_of_mem hvalue)).trans hmass⟩

theorem forall_entries {α : Type} {P : Value α → Prop} {v : Value α} (h : v.ListOf P) :
    ∀ item ∈ v.entries, P item := by
  rcases h with rfl | ⟨items, rfl, hitems⟩
  · exact nofun
  · exact hitems

theorem eq_of_timesIfAny {α : Type} {items times : List (Value α)}
    (h : timesIfAny items = some times) : times = items := by
  unfold timesIfAny at h
  split at h
  · cases h
  · exact (Option.some.inj h).symm

/-- The samples are there, or there are none. -/
theorem exists_samples {v : Value Number} (h : v.ListOf Value.CanName) :
    ∃ samples, itemsIfGiven v = .ok samples ∧ sampleCount samples = v.entries.length ∧
      ∀ ids, samples = some ids → ∀ id ∈ ids, id.CanName := by
  rcases h with rfl | ⟨items, rfl, hitems⟩
  · exact ⟨none, rfl, rfl, fun _ hnone => by cases hnone⟩
  · refine ⟨some items, rfl, rfl, ?_⟩
    rintro ids ⟨⟩
    exact hitems

/-- Times of differences are within the mass that the differences have together. -/
theorem ends_runningSums : ∀ {deltas : List (Value Number)} {last : Number},
    (∀ delta ∈ deltas, ∃ x, delta = .num x) → last.size + sumOfMasses deltas ≤ mass →
      Ends (Fault.Refuses mass) (fun times => ∀ time ∈ times, ∃ x, time = .num x ∧ x.size ≤ mass)
        (runningSums (.num last) deltas)
  | [], _, _, _ => nofun
  | delta :: rest, last, h, hmass => by
    obtain ⟨⟨x, rfl⟩, hrest⟩ := List.forall_mem_cons.mp h
    simp only [sumOfMasses, List.map_cons, List.sum_cons] at hmass
    have hx : (Value.num x).mass = x.size := rfl
    have hadd : Ends (Fault.Refuses mass) (fun next => next = .num (last + x))
        ((Value.num last).add (.num x)) :=
      (Number.ends_add (by omega) (by omega)).map fun _ => congrArg Value.num
    have hsize := Number.size_add_le last x
    refine hadd.bind fun next hnext => ?_
    subst hnext
    refine (ends_runningSums hrest (by simp only [sumOfMasses]; omega)).bind fun times htimes => ?_
    exact List.forall_mem_cons.mpr ⟨⟨_, rfl, by omega⟩, htimes⟩

theorem accumulate_eq {P : Value Number → Prop} {v : Value Number} (h : v.ListOf P) (x : Number) :
    accumulate (.num x) v = runningSums (.num x) v.entries := by
  rcases h with rfl | ⟨items, rfl, -⟩
  · rfl
  · cases items with
    | nil => rfl
    | cons first rest => rfl

/-! ## 3. Both formats -/

/-- Flat nodes are made of nested ones with all fields of their kinds. -/
theorem isFlatNode_flatNodes {α : Type} [Scalar α] {tree : Tree (Fields α)}
    (h : ∀ node ∈ tree.labels, IsNode node) : ∀ node ∈ flatNodes [tree], IsFlatNode node := by
  rw [flatNodes_singleton]
  refine List.forall_mem_map.mpr fun entry hentry => ?_
  have hnode : IsNode entry.1 := h _ (List.mem_map_of_mem hentry)
  have hfield : ∀ {name}, name ≠ "children" → (flatNode entry).get name = entry.1.get name :=
    fun hname => by rw [Fields.get, get_flatNode_of_ne entry hname, Fields.get]
  refine ⟨⟨?_, ?_, ?_, ?_⟩, .inr ⟨_, get_flatNode_children entry, ?_⟩⟩
  · rw [hfield (by decide)]
    exact hnode.id
  · rw [hfield (by decide)]
    exact hnode.parent
  · rw [NodeTable.HitsOrNot, hfield (by decide)]
    exact hnode.hitCount
  · refine hnode.frame.congr fun name hname => get_flatNode_of_ne entry ?_
    rintro rfl
    simp at hname
  · refine List.forall_mem_map.mpr fun child hchild => (h child ?_).id
    exact (labels_perm_children tree).mem_iff.mpr
      (List.mem_cons_of_mem _ (List.mem_flatMap.mpr ⟨entry, hentry, hchild⟩))

theorem hitMass_flatNodes (tree : Tree (Fields Number)) :
    hitMass (flatNodes [tree]) = hitMass tree.labels := by
  have hhits := map_get_flatNodes tree (show "hitCount" ≠ "children" by decide)
  have hmass : ∀ nodes : List (Fields Number),
      hitMass nodes = ((nodes.map (·.get "hitCount")).map Value.mass).sum := fun nodes => by
    rw [List.map_map]
    rfl
  rw [hmass, hhits, hmass]

/-- Once samples are there, the nodes are read, and then the span. -/
theorem ofLegacy_eq {P : Value Number → Prop} (htimes : (profile.get "timestamps").ListOf P)
    {samples : Option (List (Value Number))}
    (hsamples : itemsIfGiven (profile.get "samples") = .ok samples) :
    ofLegacy profile = (do
      let nodes ← flatten (profile.get "head")
      let start ← (profile.getD "startTime" (.int 0)).mul (.int 1000)
      let finish ← (profile.getD "endTime" (.int 0)).mul (.int 1000)
      return ⟨nodes, start, finish, timesIfAny (profile.get "timestamps").entries, samples,
        profile.get "lines"⟩) := by
  unfold ofLegacy
  rcases htimes with hnull | ⟨items, hlist, -⟩
  · rw [hnull, hsamples]
    rfl
  · rw [hlist, hsamples]
    cases items with
    | nil => rfl
    | cons first rest => rfl

/-- A head that does not count as given has no nodes in it. -/
theorem nestedNodes_of_not_truthy {head : Value Number} {heads : List (Tree (Fields Number))}
    (h : Nests head.given?.toList heads) (hnone : head.truthy = false) : nestedNodes heads = [] := by
  generalize hvalues : head.given?.toList = values at h
  cases h with
  | nil => rfl
  | @cons node children rest below others hchildren hbelow hrest =>
    obtain ⟨rfl, rfl⟩ : head = .obj node ∧ rest = [] := by
      cases head <;> simp_all [Value.given?]
    obtain rfl : node = [] := by simpa [Value.truthy] using hnone
    obtain rfl : children = [] := by
      rcases hchildren with hlist | ⟨-, hnil⟩
      · cases hlist
      · exact hnil
    cases hbelow with
    | nil =>
      cases hrest with
      | nil => rfl

/-- A head that is given holds one tree. -/
theorem nests_head {head : Value Number} {heads : List (Tree (Fields Number))}
    (h : Nests head.given?.toList heads) (hgiven : head.truthy = true) :
    ∃ tree, heads = [tree] ∧ Nests [head] [tree] := by
  have hsome : head.given?.toList = [head] := by
    cases head <;> first | rfl | cases hgiven
  rw [hsome] at h
  cases h with
  | cons hchildren hbelow hrest =>
    cases hrest with
    | nil => exact ⟨_, rfl, .cons hchildren hbelow .nil⟩

section Formats

variable {heads : List (Tree (Fields Number))} {flat : List (Fields Number)}
  (h : Documented profile heads flat)

include h

theorem ends_ofLegacy {tree : Tree (Fields Number)} (hheads : heads = [tree])
    (hhead : Nests [profile.get "head"] [tree]) (hids : (nestedNodes heads).all hasId = true) :
    Ends (Fault.Refuses (massOf profile heads flat)) (Within (massOf profile heads flat))
      (ofLegacy profile) := by
  obtain ⟨mass, hmass⟩ : ∃ mass, mass = massOf profile heads flat := ⟨_, rfl⟩
  subst hheads
  obtain ⟨samples, hsamples, hcount, hnames⟩ := exists_samples h.samples
  obtain ⟨start, hstart, hstartSize⟩ := exists_number h.start
  obtain ⟨finish, hfinish, hfinishSize⟩ := exists_number h.finish
  have hlabels : labelsAll [tree] = tree.labels := by
    rw [labelsAll_cons, labelsAll_nil, List.append_nil]
  have hhits := hitMass_flatNodes tree
  rw [← hmass, ofLegacy_eq h.timestamps hsamples, flatten_nests hhead, if_pos hids, ok_bind, hstart,
    hfinish]
  rw [massOf, hlabels] at hmass
  refine (ends_thousandfold (by omega) (by omega)).bind fun scaledStart hscaledStart => ?_
  refine (ends_thousandfold (by omega) (by omega)).bind fun scaledFinish hscaledFinish => ?_
  obtain ⟨first, hfirst, hfirstSize⟩ := hscaledStart
  obtain ⟨last, hlast, hlastSize⟩ := hscaledFinish
  refine Within.mk (isFlatNode_flatNodes (hlabels ▸ h.nested)) hnames (fun times htimes => ?_)
    ⟨first, last, hfirst, hlast, by omega⟩ ?_ (by omega)
  · rw [eq_of_timesIfAny htimes]
    exact fun time => exists_number_of_mem (forall_entries h.timestamps) (by omega)
  · dsimp only
    omega

theorem ends_ofCurrent (hnodes : profile.get "nodes" = .list (flat.map .obj)) :
    Ends (Fault.Refuses (massOf profile heads flat)) (Within (massOf profile heads flat))
      (ofCurrent profile) := by
  obtain ⟨mass, hmass⟩ : ∃ mass, mass = massOf profile heads flat := ⟨_, rfl⟩
  obtain ⟨samples, hsamples, hcount, hnames⟩ := exists_samples h.samples
  obtain ⟨start, hstart, hstartSize⟩ := exists_number h.start
  obtain ⟨finish, hfinish, hfinishSize⟩ := exists_number h.finish
  have hcopied : (flat.map Value.obj).mapM copyNode = .ok flat :=
    mapM_copyNode_obj fun node hnode => (h.listed node hnode).lists
  rw [← hmass]
  rw [massOf] at hmass
  unfold ofCurrent
  simp only [hstart, hfinish, accumulate_eq h.timeDeltas, hsamples, hnodes, Value.items, ok_bind,
    hcopied]
  refine (ends_runningSums (forall_entries h.timeDeltas) (by omega)).bind fun times htimes => ?_
  refine (ends_thousandth (by omega) (by omega)).bind fun first hfirst => ?_
  refine (ends_thousandth (by omega) (by omega)).bind fun last hlast => ?_
  refine Within.mk h.listed hnames (fun given hgiven => ?_) ⟨first, last, rfl, rfl, by omega⟩ ?_
    (by omega)
  · rw [eq_of_timesIfAny hgiven]
    exact htimes
  · dsimp only
    omega

/-- **A documented profile can be read if every nested node has an id, and otherwise it is there
that an id is missing.** -/
theorem ofProfile_documented :
    (nestedNodes heads).all hasId = true ∧
        Ends (Fault.Refuses (massOf profile heads flat)) (Within (massOf profile heads flat))
          (ofProfile (.obj profile)) ∨
      (nestedNodes heads).all hasId = false ∧
        ofProfile (.obj profile) = .error (.missingField "'id'") := by
  cases hhead : (profile.get "head").truthy with
  | true =>
    obtain ⟨tree, hheads, hnests⟩ := nests_head h.head hhead
    have hread : ofProfile (.obj profile) = ofLegacy profile := by
      rw [ofProfile, formatOf, if_pos hhead, ok_bind]
    rw [hread]
    cases hids : (nestedNodes heads).all hasId with
    | true => exact .inl ⟨rfl, ends_ofLegacy h hheads hnests hids⟩
    | false =>
      obtain ⟨samples, hsamples, -⟩ := exists_samples h.samples
      refine .inr ⟨rfl, ?_⟩
      rw [ofLegacy_eq h.timestamps hsamples, flatten_nests hnests, ← hheads, hids]
      rfl
  | false =>
    refine .inl ⟨by rw [nestedNodes_of_not_truthy h.head hhead]; rfl, ?_⟩
    rw [ofProfile, formatOf, if_neg (by rw [hhead]; decide)]
    split
    · rename_i hgiven
      rcases h.nodes with ⟨hnull, -⟩ | hlist
      · rw [hnull] at hgiven
        cases hgiven
      · exact ends_ofCurrent h hlist
    · exact trivial

end Formats

end Recording

/-! ## 4. Loading -/

namespace Model

open Recording

/-- **A documented profile has a missing field exactly when a node nested in another one has no id;
whatever else it is refused for, it is malformed, or a number grows beyond the largest double.** -/
theorem load_documented {profile : Fields Number} {heads : List (Tree (Fields Number))}
    {flat : List (Fields Number)} (h : Documented profile heads flat) (keepNatives : Bool) :
    (load (.obj profile) keepNatives = .error (.missingField "'id'") ↔
        ∃ node ∈ nestedNodes heads, node.get? "id" = none) ∧
      ∀ fault, load (.obj profile) keepNatives = .error fault →
        fault = .missingField "'id'" ∨ (∃ why, fault = .malformed why) ∨
          fault = .overflow ∧ Binary64.largest < massOf profile heads flat := by
  have hmissing : (nestedNodes heads).all hasId = false ↔
      ∃ node ∈ nestedNodes heads, node.get? "id" = none := by
    simp [hasId]
  rcases ofProfile_documented h with ⟨hids, hread⟩ | ⟨hids, hread⟩
  · have hload : FailsAs (Fault.Refuses (massOf profile heads flat))
        (load (.obj profile) keepNatives) :=
      hread.bind fun recording hwithin => refuses_ofRecording hwithin keepNatives
    refine ⟨⟨fun hfault => ?_, fun hnode => ?_⟩, fun fault hfault => .inr ?_⟩
    · rw [hfault] at hload
      exact hload.elim
    · rw [hmissing.mpr hnode] at hids
      cases hids
    · rw [hfault] at hload
      cases fault with
      | malformed why => exact .inl ⟨why, rfl⟩
      | overflow => exact .inr ⟨rfl, hload⟩
      | _ => exact hload.elim
  · have hload : load (.obj profile) keepNatives = .error (.missingField "'id'") := by
      rw [load, hread]
      rfl
    refine ⟨⟨fun _ => hmissing.mp hids, fun _ => hload⟩, fun fault hfault => .inl ?_⟩
    rw [hload] at hfault
    exact (Except.error.inj hfault).symm

/-- A node with a name and no id. -/
def unnamedChild : Fields Number := [("functionName", .str "f")]

/-- A root in which it is nested. -/
def nestingRoot : Fields Number := [("id", .int 1), ("children", .list [.obj unnamedChild])]

/-- A profile of both in the legacy format. -/
def nestedUnnamed : Fields Number := [("head", .obj nestingRoot), ("samples", .list [.int 1])]

/-- A profile of both in the current format. -/
def listedUnnamed : Fields Number :=
  [("nodes", .list [.obj [("id", .int 1), ("children", .list [])], .obj unnamedChild]),
    ("samples", .list [.int 1])]

theorem documented_nestedUnnamed :
    Documented nestedUnnamed [.node nestingRoot [.node unnamedChild []]] [] where
  head := .cons (.inl rfl) (.cons (.inr ⟨rfl, rfl⟩) .nil .nil) .nil
  nested := by
    have hroot : IsNode nestingRoot :=
      ⟨⟨_, rfl⟩, ⟨_, rfl⟩, .inl rfl, ⟨.inl rfl, .inl rfl, nofun, nofun⟩⟩
    have hchild : IsNode unnamedChild :=
      ⟨⟨_, rfl⟩, ⟨_, rfl⟩, .inl rfl, ⟨.inl rfl, .inl rfl, nofun, nofun⟩⟩
    intro node hnode
    have hmem : node = nestingRoot ∨ node = unnamedChild := by
      simpa [labelsAll, Tree.flattenAll, Tree.flatten] using hnode
    rcases hmem with rfl | rfl
    · exact hroot
    · exact hchild
  nodes := .inl ⟨rfl, rfl⟩
  listed := nofun
  start := nofun
  finish := nofun
  timestamps := .inl rfl
  timeDeltas := .inl rfl
  samples := .inr ⟨_, rfl, by simpa using ⟨_, rfl⟩⟩

theorem load_documented_nestedUnnamed :
    Documented nestedUnnamed [.node nestingRoot [.node unnamedChild []]] [] ∧
      load (.obj nestedUnnamed) true = .error (.missingField "'id'") :=
  ⟨documented_nestedUnnamed, (load_documented documented_nestedUnnamed true).1.mpr
    ⟨unnamedChild, by simp [nestedNodes, Tree.flattenAll, Tree.flatten, Tree.label], rfl⟩⟩

/-- **What is malformed in the current format is a missing field in the legacy one.** -/
theorem load_nestedUnnamed :
    Documented nestedUnnamed [.node nestingRoot [.node unnamedChild []]] [] ∧
      load (.obj nestedUnnamed) true = .error (.missingField "'id'") ∧
      load (.obj listedUnnamed) true = .error (.malformed .nodeWithoutId) :=
  ⟨documented_nestedUnnamed, rfl, rfl⟩

end Model
end SampledProfile
