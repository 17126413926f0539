/-
# Two formats, one model

A profile in the legacy format can be written in the current one: its nested nodes as a flat list,
its span in other units, and its times as differences.  Read exactly, both give the same recording
(`Recording.ofProfile_legacyFields`, `Recording.ofProfile_currentFields`), and so they load to the
same model, or to none for the same reason (`Model.load_legacyFields_eq`).

That reason is never that the nodes are no tree.  Their lists of children are those of the tree that
was nested, so the walk from the first node ends as reading the single nodes does
(`Contraction.spares_ofNodes`), and what comes behind the walk knows all ids that it is given
(`Model.spares_ofRecording`).
-/
import Mathlib.Tactic.Ring
import SampledProfile.Proofs.Conservation
import SampledProfile.Proofs.Recording.Heads
import SampledProfile.Proofs.Refusals

namespace SampledProfile
namespace Recording

open Outcome SampledProfile.Tree

/-! ## 1. One recording -/

/-- The differences of times from one on. -/
def differences : Rat → List Rat → List Rat
  | _, [] => []
  | last, time :: rest => (time - last) :: differences time rest

/-- A profile of nested nodes, with its span in seconds and times in microseconds. -/
def legacyFields (head : Value Rat) (start finish : Rat) (times : List Rat)
    (samples : Option (List (Value Rat))) : Fields Rat :=
  [("head", head), ("startTime", .num start), ("endTime", .num finish),
    ("timestamps", .list (times.map .num)), ("samples", .ofOption (samples.map .list))]

/-- The same profile with flat nodes, its span in microseconds, and differences of times. -/
def currentFields (nodes : List (Fields Rat)) (start finish : Rat) (times : List Rat)
    (samples : Option (List (Value Rat))) : Fields Rat :=
  [("nodes", .list (nodes.map .obj)), ("startTime", .num (start * 10 ^ 6)),
    ("endTime", .num (finish * 10 ^ 6)),
    ("timeDeltas", .list ((differences (start * 10 ^ 6) times).map .num)),
    ("samples", .ofOption (samples.map .list))]

/-- What both say. -/
def recorded (nodes : List (Fields Rat)) (start finish : Rat) (times : List Rat)
    (samples : Option (List (Value Rat))) : Recording Rat :=
  ⟨nodes, .num (start * 1000), .num (finish * 1000), timesIfAny (times.map .num), samples, .null⟩

theorem numbers_of_recorded {nodes : List (Fields Rat)} {start finish : Rat} {times : List Rat}
    {samples : Option (List (Value Rat))} {given : List (Value Rat)}
    (h : (recorded nodes start finish times samples).timestamps = some given) :
    ∀ time ∈ given, time.number?.isSome := by
  have hgiven : times.map Value.num = given := by
    unfold recorded timesIfAny at h
    split at h
    · cases h
    · exact Option.some.inj h
  rw [← hgiven]
  exact List.forall_mem_map.mpr fun _ _ => rfl

theorem itemsIfGiven_ofOption (samples : Option (List (Value Rat))) :
    itemsIfGiven (.ofOption (samples.map .list)) = .ok samples := by
  cases samples <;> rfl

theorem ofProfile_legacyFields {head : Value Rat} {nodes : List (Fields Rat)}
    (hhead : head.truthy = true) (hnodes : flatten head = .ok nodes) (start finish : Rat)
    (times : List Rat) (samples : Option (List (Value Rat))) :
    ofProfile (.obj (legacyFields head start finish times samples)) =
      .ok (recorded nodes start finish times samples) := by
  rw [ofProfile_of_head (by simpa [legacyFields, Fields.get, Fields.get?] using hhead)]
  have hsamples := itemsIfGiven_ofOption samples
  cases times with
  | nil =>
    simp only [ofLegacy, legacyFields, Fields.get, Fields.getD, Fields.get?, String.reduceEq,
      if_true, if_false, Option.getD_some, Option.getD_none, hsamples, hnodes, ok_bind]
    rfl
  | cons time rest =>
    simp only [ofLegacy, legacyFields, Fields.get, Fields.getD, Fields.get?, String.reduceEq,
      if_true, if_false, Option.getD_some, Option.getD_none, hsamples, hnodes, ok_bind]
    rfl

theorem runningSums_differences (last : Rat) : ∀ times : List Rat,
    runningSums (.num last) ((differences last times).map .num) = .ok (times.map .num)
  | [] => rfl
  | time :: rest => by
    have hadd : (Value.num last).add (.num (time - last)) = .ok (.num time) :=
      congrArg (fun sum => Except.ok (Value.num sum)) (add_sub_cancel last time)
    rw [differences, List.map_cons, runningSums, hadd, ok_bind, runningSums_differences time rest]
    rfl

theorem accumulate_differences (start : Rat) (times : List Rat) :
    accumulate (.num start) (.list ((differences start times).map .num)) =
      .ok (times.map .num) := by
  cases times with
  | nil => rfl
  | cons time rest =>
    have hsums := runningSums_differences start (time :: rest)
    exact hsums

theorem ofProfile_currentFields (tree : Tree (Fields Rat)) (start finish : Rat) (times : List Rat)
    (samples : Option (List (Value Rat))) :
    ofProfile (.obj (currentFields (flatNodes [tree]) start finish times samples)) =
      .ok (recorded (flatNodes [tree]) start finish times samples) := by
  have hne : flatNodes [tree] ≠ [] := List.length_pos_iff.mp (length_pos_flatNodes tree)
  have hnodes : ((flatNodes [tree]).map Value.obj).mapM copyNode = .ok (flatNodes [tree]) := by
    refine mapM_copyNode_obj fun node hnode => ?_
    obtain ⟨entry, -, rfl⟩ := List.mem_map.mp hnode
    exact .inr ⟨_, get_flatNode_children entry⟩
  have hdiv : ∀ time : Rat, (Value.num (time * 10 ^ 6)).div (.int 1000) = .ok (time * 1000) := by
    intro time
    have hquotient : time * 10 ^ 6 / (1000 : Rat) = time * 1000 := by ring
    exact congrArg Except.ok hquotient
  rw [ofProfile_of_nodes (by simp [currentFields, Fields.get, Fields.get?, Value.truthy])
    (by simp [currentFields, Fields.get, Fields.get?, Value.truthy, hne])]
  simp only [currentFields, ofCurrent, Fields.get, Fields.getD, Fields.get?, String.reduceEq,
    if_true, if_false, Option.getD_some, Option.getD_none, accumulate_differences,
    itemsIfGiven_ofOption, Value.items, hnodes, hdiv, ok_bind]
  rfl

end Recording

/-! ## 2. The nodes are a tree -/

namespace Contraction

open Outcome NodeTable SampledProfile.Tree Recording

variable {tree : Tree (Fields Rat)}

/-- **A table of which the lists describe a tree is not refused for being none.** -/
theorem spares_ofTable {table : NodeTable Rat} (hi : table.Indexed) (hpos : 0 < table.nodes.length)
    (htree : ListsTree table)
    (hlists : ∀ position < table.nodes.length, ListsOrNot table.nodes position)
    (hknown : ∀ position < table.nodes.length, ∀ id ∈ listed (nodeIn table.nodes position),
      Known table.nodes id) (samples start finish : Value Rat) (keepNatives : Bool) :
    Spares (ofTable table samples start finish keepNatives) := by
  have hbelow : ∀ position < table.nodes.length, ∃ below, childPositions table
      (nodeIn table.nodes position) (idIn table.nodes position) = .ok below := fun position hp =>
    exists_childPositions hi (hlists position hp) (hknown position hp) _
  choose! below hbelow using hbelow
  have hnames : ∀ position < table.nodes.length,
      Names table.nodes (listed (nodeIn table.nodes position)) (below position) := by
    intro position hp
    have hfind := listed_of_childPositions (hbelow position hp)
    exact (mapM_eq_ok_iff.mp hfind).imp fun id child hchild => hi.find_eq_ok_iff.mp hchild
  have hread : ∀ (time : Rat), ∀ position < table.nodes.length, position ≠ 0 →
      Ends (fun fault => ¬ fault.DeniesTree) (fun node => node.below = below position)
        (read table time keepNatives position) := by
    intro time position hp _
    unfold read
    simp only [nodeAt_eq]
    rw [← idIn, hi.key position hp, ok_bind]
    refine Ends.bind (Spares.call time _) fun call _ => ?_
    refine Ends.bind (Spares.isElided keepNatives _) fun elided _ => ?_
    rw [hbelow position hp, ok_bind]
    exact .of_eq_ok rfl rfl
  have hwalk := fun time => ends_fromRoot hi hpos hnames (Spares.call time _) (hread time)
    (htree.exists_items (hlists 0 hpos)) htree
  refine (Spares.totalHits table).bind fun total => ?_
  refine (Spares.sampleTime total start finish).bind fun time => ?_
  refine (hwalk time).bind fun result hkeys => ?_
  have hlength : result.2.length = table.nodes.length := by
    simpa using hkeys.length_eq
  simp only [hlength, ne_eq, not_true, if_false]
  exact (Spares.redirectSamples result.2 samples).bind fun _ => Spares.ok _

/-- Nodes with ids that are all different make a table, unless one of the ids is no name. -/
theorem spares_foldlM_push : ∀ (nodes : List (Fields Rat)) {table : NodeTable Rat}, table.Indexed →
    (∀ node ∈ nodes, (node.get "id").isNull = false) →
    (table.nodes ++ nodes).Pairwise
      (fun node other => ¬ (node.get "id").SameName (other.get "id")) →
    Spares ((nodes.map Value.obj).foldlM push table)
  | [], table, _, _, _ => Spares.ok table
  | entry :: rest, table, h, hgiven, hdistinct => by
    obtain ⟨hentry, hrest⟩ := List.forall_mem_cons.mp hgiven
    have hother : ∀ other ∈ table.nodes, ¬ (other.get "id").SameName (entry.get "id") :=
      fun other hmem => (List.pairwise_append.mp hdistinct).2.2 other hmem entry List.mem_cons_self
    have hkey := Spares.key (entry.get "id")
    have hpush : Spares (table.push (.obj entry)) := by
      simp only [push, Value.fields, ok_bind, hentry, Bool.false_eq_true, if_false]
      cases hname : (entry.get "id").key with
      | error fault =>
        rw [hname] at hkey
        exact hkey
      | ok key =>
        have hfresh : (key.lookup table.names).isSome = false := by
          rw [← Bool.not_eq_true, Key.isSome_lookup_iff]
          exact h.fresh hother hname
        simp only [ok_bind, hfresh, Bool.false_eq_true, if_false]
        exact Spares.ok _
    rw [List.map_cons, List.foldlM_cons]
    refine Ends.bind (Ends.and_ok hpush fun next hnext => h.push hnext) fun next hnext => ?_
    obtain ⟨-, hnodes, hindexed⟩ := hnext
    refine spares_foldlM_push rest hindexed hrest ?_
    rwa [hnodes, List.append_assoc, List.singleton_append]

/-- **Whatever else is wrong with flat nodes of different ids, they are a tree.** -/
theorem spares_ofNodes (hgiven : ∀ node ∈ tree.labels, (node.get "id").isNull = false)
    (hdistinct : tree.labels.Pairwise
      fun node other => ¬ (node.get "id").SameName (other.get "id"))
    (samples start finish : Value Rat) (keepNatives : Bool) :
    Spares (ofNodes ((flatNodes [tree]).map .obj) samples start finish keepNatives).2 := by
  have hpos := length_pos_flatNodes tree
  have hne : flatNodes [tree] ≠ [] := List.length_pos_iff.mp hpos
  have hmade : Spares (NodeTable.ofNodes ((flatNodes [tree]).map .obj)) :=
    spares_foldlM_push _ indexed_empty
      ((forall_id_flatNodes tree fun id => id.isNull = false).mpr hgiven)
      ((pairwise_id_flatNodes tree fun id other => ¬ id.SameName other).mpr hdistinct)
  cases htable : NodeTable.ofNodes ((flatNodes [tree]).map .obj) with
  | error fault =>
    have hnonempty : ((flatNodes [tree]).map Value.obj).isEmpty = false := by simpa using hne
    rw [htable] at hmade
    simp only [ofNodes, hnonempty, Bool.false_eq_true, if_false, htable]
    exact hmade
  | ok table =>
    obtain ⟨hnodes, hi⟩ := indexed_ofNodes htable
    have hids : OwnIds tree.labels := ownIds_flatNodes.mp (hnodes ▸ hi.ownIds)
    have hlists : ∀ position < table.nodes.length, ListsOrNot table.nodes position := by
      intro position hp
      rw [hnodes] at hp ⊢
      obtain ⟨entry, -, hentry⟩ := nodeIn_flatNodes hp
      exact .inr ⟨_, hentry ▸ get_flatNode_children entry⟩
    have hfirst : ((nodeIn table.nodes 0).get "children").isNull = false := by
      obtain ⟨entry, -, hentry⟩ := nodeIn_flatNodes hpos
      rw [hnodes, hentry, get_flatNode_children]
      rfl
    have hchildren := (fillChildren_fillHits_iff hi samples hlists).mpr
      ⟨hnodes ▸ hne, .inl hfirst⟩
    have hfilled := filled_filledTable htable hchildren
    obtain ⟨hfilledLists, hfilledFirst⟩ := listsOrNot_filledTable htable hchildren (hnodes ▸ hlists)
    rw [ofNodes_snd_eq hne htable samples start finish keepNatives, hchildren]
    refine (Spares.fillHits table samples).bind fun _ => ?_
    refine spares_ofTable hfilled.indexed (hfilled.length ▸ hpos)
      (listsTree_of_filled hfilled hfilledFirst (fun position => occurrences_flatNodes hids)
        fun position => reachable_flatNodes hids) (fun position hp => ?_) (fun position hp => ?_)
      samples start finish keepNatives
    · rw [hfilled.length] at hp
      exact hfilledLists position hp
    · rw [hfilled.length] at hp
      rw [hfilled.lists position hp]
      simpa only [Known, hfilled.length, hfilled.ids] using known_flatNodes hids hp

end Contraction

/-! ## 3. One model -/

namespace Model

open Outcome Recording

/-- If the tree is not denied where it is built, then it is not denied by what comes behind. -/
theorem spares_ofRecording {recording : Recording Rat} {keepNatives : Bool}
    (hcontraction : Spares (Contraction.ofNodes (recording.nodes.map .obj)
      (.ofOption (recording.samples.map .list)) recording.start recording.finish keepNatives).2)
    (hnumbers : ∀ times, recording.timestamps = some times →
      ∀ time ∈ times, time.number?.isSome) :
    Spares (ofRecording recording keepNatives) := by
  unfold ofRecording
  have hends : Ends (fun fault => ¬ fault.DeniesTree) (fun contraction => True ∧
      (Contraction.ofNodes (recording.nodes.map .obj) (.ofOption (recording.samples.map .list))
        recording.start recording.finish keepNatives).2 = .ok contraction)
      (Contraction.ofNodes (recording.nodes.map .obj) (.ofOption (recording.samples.map .list))
        recording.start recording.finish keepNatives).2 :=
    Ends.and_ok hcontraction fun _ hok => hok
  refine hends.bind fun contraction hresult => ?_
  obtain ⟨-, hok⟩ := hresult
  obtain ⟨names, hnames⟩ := exists_namesOf_of_ofNodes hok
  dsimp only
  rw [hnames, ok_bind]
  cases hsamples : contraction.samples with
  | none => exact Spares.ok _
  | some samples =>
    have hrepair : ∀ ordered : List (Value Rat), ordered.Perm samples → Spares (repair
        (contraction.tree.arrange Call.self) names
        (systemNodes (contraction.tree.arrange Call.self)) ordered) := by
      intro ordered hperm
      obtain ⟨repaired, count, hrepaired⟩ := exists_repair hnames
        (systemNodes (contraction.tree.arrange Call.self)) fun id hid =>
          ids_of_ofNodes hok hsamples id (hperm.mem_iff.mp hid)
      exact Ends.of_eq_ok hrepaired trivial
    dsimp only
    split
    · rename_i times htimes
      obtain ⟨ordered, hsort⟩ := Samples.sort_eq samples (hnumbers times htimes)
      rw [hsort, ok_bind]
      refine (Spares.ofSamples _ _ _ _).bind fun line => ?_
      exact (hrepair ordered (Samples.perm_of_sort hsort).1).bind fun _ => Spares.ok _
    · refine (Spares.ofSamples _ _ _ _).bind fun line => ?_
      exact (hrepair samples (.refl _)).bind fun _ => Spares.ok _

/-- **A profile in the legacy format and the same one in the current format load to the same model,
or to none for the same reason, and the reason is not that the nodes are no tree.** -/
theorem load_legacyFields_eq {head : Value Rat} {tree : Tree (Fields Rat)}
    (hnested : Nests [head] [tree])
    (hgiven : ∀ node ∈ tree.labels, (node.get "id").isNull = false)
    (hdistinct : tree.labels.Pairwise
      fun node other => ¬ (node.get "id").SameName (other.get "id"))
    (start finish : Rat) (times : List Rat) (samples : Option (List (Value Rat)))
    (keepNatives : Bool) :
    ∃ nodes, flatten head = .ok nodes ∧
      load (.obj (legacyFields head start finish times samples)) keepNatives =
        load (.obj (currentFields nodes start finish times samples)) keepNatives ∧
      ∀ fault, load (.obj (legacyFields head start finish times samples)) keepNatives =
        .error fault → ¬ fault.DeniesTree := by
  have hflatten := flatten_eq hnested hgiven
  have hhead := truthy_of_nests hnested hgiven
  have hlegacy := ofProfile_legacyFields hhead hflatten start finish times samples
  have hcurrent := ofProfile_currentFields tree start finish times samples
  refine ⟨flatNodes [tree], hflatten, ?_, fun fault hfault => ?_⟩
  · rw [load, load, hlegacy, hcurrent]
  · have hspares : Spares (ofRecording (recorded (flatNodes [tree]) start finish times samples)
        keepNatives) := by
      refine spares_ofRecording (Contraction.spares_ofNodes hgiven hdistinct _ _ _ _) ?_
      exact fun given => numbers_of_recorded
    rw [load, hlegacy, ok_bind] at hfault
    rw [hfault] at hspares
    exact hspares

/-- The program, with a child of its own. -/
def nestedProgram : Tree (Fields Rat) :=
  .node [("id", .int 2), ("functionName", .str programName), ("hitCount", .int 1),
      ("children", .list [.obj [("id", .int 3), ("hitCount", .int 2), ("url", .str "native f.js")]])]
    [.node [("id", .int 3), ("hitCount", .int 2), ("url", .str "native f.js")] []]

/-- A root over the program and a node whose children are nothing. -/
def nestedHead : Fields Rat :=
  [("id", .str "root"), ("hitCount", .int 0),
    ("children", .list [.obj nestedProgram.label,
      .obj [("id", .int 4), ("hitCount", .int 1), ("children", .null)]])]

theorem load_legacyFields_nestedHead :
    ∃ nodes model, flatten (.obj nestedHead) = .ok nodes ∧
      load (.obj (legacyFields (.obj nestedHead) 1 2 [1500000, 1200000, 1800000]
        (some [.int 3, .int 4, .int 2]))) false = .ok model ∧
      load (.obj (currentFields nodes 1 2 [1500000, 1200000, 1800000]
        (some [.int 3, .int 4, .int 2]))) false = .ok model := by
  have hnested : Nests [.obj nestedHead] [.node nestedHead [nestedProgram,
      .node [("id", .int 4), ("hitCount", .int 1), ("children", .null)] []]] :=
    .cons (.inl rfl) (.cons (.inl rfl) (.cons (.inr ⟨rfl, rfl⟩) .nil .nil)
      (.cons (.inr ⟨rfl, rfl⟩) .nil .nil)) .nil
  obtain ⟨nodes, hnodes, heq, -⟩ := load_legacyFields_eq hnested (by decide +kernel)
    (by decide +kernel) 1 2 [1500000, 1200000, 1800000] (some [.int 3, .int 4, .int 2]) false
  obtain ⟨model, hmodel⟩ : ∃ model, load (.obj (legacyFields (.obj nestedHead) 1 2
      [1500000, 1200000, 1800000] (some [.int 3, .int 4, .int 2]))) false = .ok model :=
    exists_of_isOk (by decide +kernel)
  exact ⟨nodes, model, hnodes, hmodel, heq ▸ hmodel⟩

end Model
end SampledProfile
