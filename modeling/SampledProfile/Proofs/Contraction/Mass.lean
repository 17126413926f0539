/-
# How large the numbers of a list of nodes get

The hits of all nodes are added up, and the span of a profile is shared out among them.  Samples that
are counted add one hit each, so what is added up is at most what is reported and the number of samples
(`hitMass_filledTable_le`).

Within a mass that large the arithmetic of a list of nodes is refused only if the mass is beyond the
largest double (`computes_filledTable`), and so is the whole way to the tree, as long as the list is a
well formed one (`refuses_ofNodes`).
-/
import SampledProfile.Proofs.Contraction.Refused
import SampledProfile.Proofs.Numeric.Size

namespace SampledProfile

open Outcome

/-- The size of a number, and none for what is no number. -/
def Value.mass (v : Value Number) : Nat := (v.number?.map Number.size).getD 0

namespace Contraction

open NodeTable

/-! ## 1. Hits added up -/

/-- The sizes of all hits together. -/
def hitMass (nodes : List (Fields Number)) : Nat :=
  (nodes.map fun node => (node.get "hitCount").mass).sum

variable {table : NodeTable Number}

/-- The number of samples, none if there are none. -/
def sampleCount (samples : Option (List (Value Number))) : Nat := (samples.getD []).length

/-- Changing one entry of a list changes the sum by as much as the entry. -/
theorem sum_modify_le {β : Type} (weight : β → Nat) (change : β → β) {more : Nat} :
    ∀ {entries : List β} {index : Nat},
      (∀ entry, entries[index]? = some entry → weight (change entry) ≤ weight entry + more) →
      ((entries.modify index change).map weight).sum ≤ (entries.map weight).sum + more
  | [], index, _ => by simp
  | first :: rest, 0, h => by
    have hfirst := h first rfl
    simp only [List.modify_zero_cons, List.map_cons, List.sum_cons]
    omega
  | first :: rest, index + 1, h => by
    have hrest : ((rest.modify index change).map weight).sum ≤ (rest.map weight).sum + more :=
      sum_modify_le weight change fun entry hentry => h entry (by simpa using hentry)
    simp only [List.modify_succ_cons, List.map_cons, List.sum_cons]
    omega

theorem hitMass_of_fills {name : String} {result : NodeTable Number}
    (h : Fills name table result) (hname : "hitCount" ≠ name) :
    hitMass result.nodes = hitMass table.nodes := by
  unfold hitMass
  congr 1
  refine List.ext_getElem (by simp [h.length]) fun index hindex hindex' => ?_
  rw [List.length_map] at hindex hindex'
  rw [List.getElem_map, List.getElem_map, ← nodeIn_eq_getElem hindex, ← nodeIn_eq_getElem hindex',
    h.get_eq index hname]

theorem hitMass_clearHits (table : NodeTable Number) : hitMass table.clearHits.nodes = 0 := by
  have hzero : ∀ node : Fields Number, ((node.set "hitCount" (.int 0)).get "hitCount").mass = 0 := by
    intro node
    rw [Fields.get, Fields.get?_set_self]
    rfl
  rw [hitMass, clearHits, List.map_map]
  exact List.sum_eq_zero (List.forall_mem_map.mpr fun node _ => hzero node)

theorem hitMass_hit_le (table : NodeTable Number) (position : Nat) :
    hitMass (table.hit position).nodes ≤ hitMass table.nodes + 1 := by
  unfold hit
  split
  · rename_i count hcount
    refine sum_modify_le _ _ fun node hnode => ?_
    rw [nodeAt, hnode, Option.getD_some] at hcount
    rw [Fields.get, Fields.get?_set_self, Option.getD_some]
    have hold : (node.get "hitCount").mass = count.size := by rw [Value.mass, hcount]; rfl
    rw [hold]
    exact Number.size_add_le count (.int 1)
  · exact Nat.le_succ _

theorem hitMass_countHits_le : ∀ (samples : List (Value Number)) (table : NodeTable Number),
    hitMass (table.countHits samples).1.nodes ≤ hitMass table.nodes + samples.length
  | [], _ => Nat.le_refl _
  | sample :: rest, table => by
    unfold countHits
    split
    · rename_i position _
      have hrest := hitMass_countHits_le rest (table.hit position)
      have hone := hitMass_hit_le table position
      simp only [List.length_cons]
      omega
    · exact Nat.le_add_right _ _

theorem hitMass_fillHits_le (table : NodeTable Number) (samples : Option (List (Value Number))) :
    hitMass (table.fillHits (.ofOption (samples.map .list))).1.nodes ≤
      hitMass table.nodes + sampleCount samples := by
  unfold fillHits
  split
  · exact Nat.le_add_right _ _
  · split
    · exact Nat.le_add_right _ _
    · cases samples with
      | none => exact Nat.le_add_right _ _
      | some ids =>
        have hcounted := hitMass_countHits_le ids table.clearHits
        rw [hitMass_clearHits] at hcounted
        exact hcounted.trans (by simp [sampleCount])

/-- **The hits of a filled table are at most those reported and one for every sample.** -/
theorem hitMass_filledTable_le {nodes : List (Fields Number)}
    {samples : Option (List (Value Number))}
    (htable : NodeTable.ofNodes (nodes.map .obj) = .ok table)
    (hchildren : (table.fillHits (.ofOption (samples.map .list))).1.fillChildren.2 = .ok ()) :
    hitMass (filledTable table (.ofOption (samples.map .list))).nodes ≤
      hitMass nodes + sampleCount samples := by
  obtain ⟨rfl, hi⟩ := indexed_ofNodes htable
  have hcounted := (fills_fillHits table (.ofOption (samples.map .list))).indexed (by decide) hi
  obtain ⟨hlinked, -⟩ := listed_fillChildren hcounted hchildren
  rw [filledTable, hitMass_of_fills hlinked (by decide)]
  exact hitMass_fillHits_le table samples

/-! ## 2. The span shared out -/

variable {mass : Nat}

/-- The hits of a node are a number, and no larger than what is reported. -/
theorem exists_count {node : Fields Number} (h : HitsOrNot node) :
    ∃ count, (node.get "hitCount").orElse (.int 0) = .num count ∧
      count.size ≤ (node.get "hitCount").mass := by
  rcases h with h | ⟨count, h⟩
  · exact ⟨.int 0, by rw [h]; rfl, Nat.zero_le _⟩
  · rw [h, Value.orElse]
    split
    · exact ⟨count, rfl, Nat.le_refl _⟩
    · exact ⟨.int 0, rfl, Nat.zero_le _⟩

/-- All hits together have a sum. -/
theorem ends_totalHits (h : ∀ node ∈ table.nodes, HitsOrNot node)
    (hmass : hitMass table.nodes ≤ mass) :
    Ends (Fault.Refuses mass) (fun total => total.size ≤ mass) table.totalHits := by
  have hsum : ∀ (nodes : List (Fields Number)) (start : Number), (∀ node ∈ nodes, HitsOrNot node) →
      start.size + hitMass nodes ≤ mass →
      Ends (Fault.Refuses mass) (fun total => total.size ≤ mass) (nodes.foldlM (fun sum node => do
        Scalar.add? sum (← ((node.get "hitCount").orElse (.int 0)).number)) start) := by
    intro nodes
    induction nodes with
    | nil => exact fun start _ hstart => hstart
    | cons node rest ih =>
      intro start hnodes hstart
      obtain ⟨hnode, hrest⟩ := List.forall_mem_cons.mp hnodes
      obtain ⟨count, hcount, hsize⟩ := exists_count hnode
      simp only [hitMass, List.map_cons, List.sum_cons] at hstart
      rw [List.foldlM_cons, hcount]
      have hadd : Ends (Fault.Refuses mass) (· = start + count) (Scalar.add? start count) :=
        Number.ends_add (by omega) (by omega)
      refine hadd.bind fun next hnext => ih next hrest ?_
      have hsizes := Number.size_add_le start count
      subst hnext
      simp only [hitMass]
      omega
  exact hsum table.nodes (.int 0) h (by simpa [Number.size] using hmass)

variable {start finish : Number}

/-- The time between two samples is a double. -/
theorem ends_sampleTime {total : Number} (htotal : total.size ≤ mass)
    (hspan : start.size + finish.size ≤ mass) :
    Ends (Fault.Refuses mass) (fun time => time.size = 0)
      (sampleTime total (.num start) (.num finish)) := by
  unfold sampleTime
  split
  · exact rfl
  · rename_i hzero
    exact Number.ends_share (by omega) htotal (Bool.eq_false_of_not_eq_true hzero)

/-! ## 3. Single nodes -/

/-- A number can be counted down by one, be it an integer or a double. -/
theorem exists_fromOne (x : Number) : ∃ position, Frame.fromOne (.num x) = .ok position := by
  have hnone : Scalar.combineFault x (.int 1) = none := by
    cases x with
    | int n => rfl
    | real y => rfl
    | undefined mark => rfl
  have hsub : Scalar.sub? x (.int 1) = .ok (x - .int 1) := by
    rw [Scalar.sub?, hnone]
    rfl
  exact ⟨.num (x - Number.int 1), congrArg (Except.map Value.num) hsub⟩

/-- A node with an id reports a call, unless its hits are too large. -/
theorem failsAs_ofFields {node : Fields Number} {time : Number} (hframe : HasFrame node)
    {id : Value Number} (hid : node.require "id" = .ok id) (hhits : HitsOrNot node)
    (hmass : (node.get "hitCount").mass ≤ mass) (htime : time.size = 0) :
    FailsAs (Fault.Refuses mass) (Call.ofFields time node) := by
  obtain ⟨frame, hframe⟩ := hframe.exists_frame exists_fromOne
  obtain ⟨count, hcount, hsize⟩ := exists_count hhits
  simp only [Call.ofFields, CallRecord.ofFields, CallRecord.selfTime, hframe, hid, hcount, ok_bind]
  have hproduct : Ends (Fault.Refuses mass) (fun product => ∃ x, product = .num x)
      ((Value.num count).mul (.num time)) :=
    (Number.ends_mul (hsize.trans hmass) (by omega)).map fun x _ => ⟨x, rfl⟩
  refine hproduct.bind fun product hproduct => ?_
  obtain ⟨x, rfl⟩ := hproduct
  exact trivial

/-! ## 4. The whole way -/

variable {nodes : List (Fields Number)} {samples : Option (List (Value Number))}

/-- **Where hits and the span are within the mass, a list of nodes can be computed with.** -/
theorem computes_filledTable (htable : NodeTable.ofNodes (nodes.map .obj) = .ok table)
    (hchildren : (table.fillHits (.ofOption (samples.map .list))).1.fillChildren.2 = .ok ())
    (hnodes : ∀ node ∈ nodes, IsNode node) (hhits : hitMass nodes + sampleCount samples ≤ mass)
    (hspan : start.size + finish.size ≤ mass) (keepNatives : Bool) :
    Computes (Fault.Refuses mass) (filledTable table (.ofOption (samples.map .list)))
      (.num start) (.num finish) keepNatives := by
  have hfilled := filled_filledTable htable hchildren
  have hmass := (hitMass_filledTable_le htable hchildren).trans hhits
  have hnode : ∀ position < (filledTable table (.ofOption (samples.map .list))).nodes.length,
      IsNode (nodeIn nodes position) := by
    intro position hp
    rw [hfilled.length] at hp
    exact nodeIn_eq_getElem hp ▸ hnodes _ (List.getElem_mem hp)
  have hhit : ∀ entry ∈ (filledTable table (.ofOption (samples.map .list))).nodes,
      HitsOrNot entry ∧ (entry.get "hitCount").mass ≤ mass := by
    intro entry hentry
    obtain ⟨position, hp, rfl⟩ := List.getElem_of_mem hentry
    refine ⟨?_, (List.le_sum_of_mem (List.mem_map_of_mem hentry)).trans hmass⟩
    rw [← nodeIn_eq_getElem hp]
    exact hitsOrNot_filledTable htable hchildren (hnode position hp).hitCount
  refine ⟨?_, fun position hp => ?_⟩
  · refine (ends_totalHits (fun entry hentry => (hhit entry hentry).1) hmass).mono ?_
    intro total htotal
    refine (ends_sampleTime htotal hspan).mono fun time htime position hp => ?_
    have hentry := hhit _ (List.getElem_mem hp)
    rw [← nodeIn_eq_getElem hp] at hentry
    exact failsAs_ofFields (hfilled.hasFrame (hnode position hp).frame)
      (hfilled.indexed.require_id hp) hentry.1 hentry.2 htime
  · unfold isElided
    split
    · exact .ok _ _
    · obtain ⟨native, hnative⟩ := (hfilled.hasFrame (hnode position hp).frame).exists_isNative
      exact .of_eq_ok hnative trivial

/-- **A list of nodes of the right kinds is malformed if it is refused, or its numbers are too
large.** -/
theorem refuses_ofNodes (hnodes : ∀ node ∈ nodes, IsFlatNode node)
    (hsamples : ∀ ids, samples = some ids → ∀ id ∈ ids, id.CanName)
    (hhits : hitMass nodes + sampleCount samples ≤ mass) (hspan : start.size + finish.size ≤ mass)
    (keepNatives : Bool) :
    FailsAs (Fault.Refuses mass) (ofNodes (nodes.map .obj) (.ofOption (samples.map .list))
      (.num start) (.num finish) keepNatives).2 :=
  failsAs_ofNodes (fun _ => trivial) hnodes hsamples fun _ htable hchildren =>
    computes_filledTable htable hchildren (fun node hnode => (hnodes node hnode).toIsNode) hhits
      hspan keepNatives

/-- Every sample is redirected. -/
theorem sampleCount_of_ofNodes {start finish : Value Number} {keepNatives : Bool}
    {result : Contraction Number}
    (h : (ofNodes (nodes.map .obj) (.ofOption (samples.map .list)) start finish keepNatives).2 =
      .ok result) : sampleCount result.samples = sampleCount samples := by
  obtain ⟨-, table, -, -, -, h⟩ := ofNodes_eq_ok_iff.mp h
  obtain ⟨-, _, -, trail, -, -, h⟩ := ofTable_eq_ok_iff.mp h
  cases samples with
  | none => rw [← Except.ok.inj h]
  | some ids =>
    obtain ⟨items, hitems, h⟩ := bind_eq_ok.mp h
    obtain ⟨redirected, hredirected, h⟩ := bind_eq_ok.mp h
    rw [← pure_eq_ok.mp h]
    obtain rfl := Except.ok.inj hitems
    exact length_of_mapM hredirected

end Contraction
end SampledProfile
