/-
# One list, with natives kept and without

Whether natives are kept decides which nodes are dropped and nothing else.  A list of nodes is read
as one tree either way: the source trees have the same nodes at the same places, with the same calls
(`Describes.exists_counterpart`).  So what is accepted one way is accepted the other way as soon as
it can be told of its nodes whether they are dropped (`exists_ofNodes_of_ofNodes`).
-/
import Mathlib.Algebra.BigOperators.Ring.List
import SampledProfile.Proofs.Contraction.Accepted
import SampledProfile.Proofs.Contraction.Ids
import SampledProfile.Proofs.Contraction.Weights

namespace SampledProfile
namespace Tree

variable {β γ : Type}

/-- Forests have the same shape if their roots correspond, and so do children wherever parents
do. -/
theorem mapAll_eq_of_children {f : β → γ} (trees : List (Tree β)) :
    ∀ {others : List (Tree β)},
      trees.map (fun tree => f tree.label) = others.map (fun tree => f tree.label) →
      (∀ entry ∈ flattenAll trees, ∀ other ∈ flattenAll others, f entry.1 = f other.1 →
        entry.2.map f = other.2.map f) → mapAll f trees = mapAll f others := by
  induction trees using forest_induction with
  | nil =>
    intro others hroots _
    cases others with
    | nil => rfl
    | cons other rest => cases hroots
  | cons label below rest ihb ihr =>
    intro others hroots hchildren
    cases others with
    | nil => cases hroots
    | cons other others =>
      obtain ⟨label', below'⟩ := other
      obtain ⟨hroot, hrest⟩ := List.cons.inj hroots
      simp only [flattenAll, flatten, List.mem_append, List.mem_cons] at hchildren
      have hbelow := hchildren _ (.inl (.inl rfl)) _ (.inl (.inl rfl)) hroot
      simp only [List.map_map] at hbelow
      have hfirst := ihb hbelow fun entry hentry other hother =>
        hchildren entry (.inl (.inr hentry)) other (.inl (.inr hother))
      have hothers := ihr hrest fun entry hentry other hother =>
        hchildren entry (.inr hentry) other (.inr hother)
      have hlabel : f label = f label' := hroot
      simp only [mapAll, map, hlabel, hfirst, hothers]

theorem subtrees_map (f : β → γ) (tree : Tree β) :
    (tree.map f).subtrees = tree.subtrees.map (map f) := by
  simpa [mapAll, subtreesAll] using subtreesAll_mapAll f [tree]

/-- What stands in a part stands in the whole. -/
theorem mem_labels_of_mem_subtrees {tree : Tree β} {label : β} {below : List (Tree β)}
    (h : .node label below ∈ tree.subtrees) :
    ∀ other ∈ labels (.node label below), other ∈ tree.labels := by
  have hpart : .node label below ∈ subtreesAll [tree] := by simpa [subtreesAll] using h
  have hsub := (sublists_of_mem_subtreesAll [tree] hpart).1.subset
  have htree : tree.labels = (subtreesAll [tree]).map Tree.label := by
    rw [← labelsAll_eq, labelsAll_cons, labelsAll_nil, List.append_nil]
  intro other hother
  rw [labels_node, List.mem_cons, labelsAll_eq] at hother
  rw [htree]
  rcases hother with rfl | hother
  · exact List.mem_map_of_mem (f := Tree.label) hpart
  · obtain ⟨deeper, hdeeper, rfl⟩ := List.mem_map.mp hother
    exact List.mem_map_of_mem (hsub hdeeper)

end Tree

namespace Contraction

open Outcome NodeTable SampledProfile.Tree

/-! ## 1. One shape -/

section Shape

variable {α : Type} [Scalar α] {table : NodeTable α}

theorem Names.unique (hi : table.Indexed) {ids : List (Value α)} {positions others : List Nat}
    (h : Names table.nodes ids positions) (h' : Names table.nodes ids others) :
    positions = others := by
  induction h generalizing others with
  | nil =>
    cases h'
    rfl
  | cons hid _ ih =>
    obtain _ | ⟨hid', hrest⟩ := h'
    rw [hi.eq_of_sameName hid.1 hid'.1 (hid.2.symm.trans hid'.2), ih hrest]

variable {nodes filled : List (Fields α)} {time : α} {keepNatives keepOthers : Bool}
  {source other : Tree (SourceNode α)}

/-- **Both ways the list is read as a tree of the same shape.** -/
theorem Describes.map_position_eq (h : Describes nodes filled time keepNatives source)
    (h' : Describes nodes filled time keepOthers other) (hi : table.Indexed)
    (htable : table.nodes = nodes) : source.map (·.position) = other.map (·.position) := by
  have hshape : mapAll (·.position) [source] = mapAll (·.position) [other] := by
    refine mapAll_eq_of_children [source] (by simp [h.root, h'.root]) ?_
    intro entry hentry entry' hentry' heq
    simp only [flattenAll, List.append_nil] at hentry hentry'
    subst htable
    have hnames := h.names hentry
    rw [heq] at hnames
    exact hnames.unique hi (h'.names hentry')
  simpa [mapAll] using hshape

theorem Describes.call_eq (h : Describes nodes filled time keepNatives source)
    (h' : Describes nodes filled time keepOthers other) {node node' : SourceNode α}
    (hnode : node ∈ source.labels) (hnode' : node' ∈ other.labels)
    (heq : node.position = node'.position) : node.call = node'.call := by
  have hcall := h.call node hnode
  rw [heq, h'.call node' hnode'] at hcall
  exact (Except.ok.inj hcall).symm

/-- **For every subtree one way there is one the other way, with the same calls.** -/
theorem Describes.exists_counterpart (h : Describes nodes filled time keepNatives source)
    (h' : Describes nodes filled time keepOthers other) (hi : table.Indexed)
    (htable : table.nodes = nodes) {node : SourceNode α} {below : List (Tree (SourceNode α))}
    (hmem : .node node below ∈ source.subtrees) :
    ∃ node' below', .node node' below' ∈ other.subtrees ∧ node'.position = node.position ∧
      node'.call = node.call ∧
      (labels (.node node' below')).map (·.call) = (labels (.node node below)).map (·.call) := by
  have hparts : source.subtrees.map (map (·.position)) = other.subtrees.map (map (·.position)) := by
    rw [← subtrees_map, ← subtrees_map, h.map_position_eq h' hi htable]
  have hpart := List.mem_map_of_mem (f := map fun node : SourceNode α => node.position) hmem
  rw [hparts] at hpart
  obtain ⟨⟨node', below'⟩, hmem', heq⟩ := List.mem_map.mp hpart
  have hposition : node'.position = node.position := (Tree.node.inj heq).1
  have hlabels := mem_labels_of_mem_subtrees hmem
  have hlabels' := mem_labels_of_mem_subtrees hmem'
  have hpositions : (labels (.node node' below')).map (·.position) =
      (labels (.node node below)).map (·.position) := by
    rw [← labels_map, ← labels_map, heq]
  refine ⟨node', below', hmem', hposition, ?_, ?_⟩
  · exact (h.call_eq h' (hlabels _ List.mem_cons_self) (hlabels' _ List.mem_cons_self)
      hposition.symm).symm
  · refine List.ext_getElem? fun index => ?_
    have hindex := congrArg (·[index]?) hpositions
    simp only [List.getElem?_map] at hindex ⊢
    cases hl' : (labels (.node node' below'))[index]? with
    | none =>
      rw [hl'] at hindex
      rw [Option.map_none, Option.map_eq_none_iff.mp hindex.symm]
      rfl
    | some label' =>
      rw [hl'] at hindex
      obtain ⟨label, hl, heq⟩ := Option.map_eq_some_iff.mp hindex.symm
      rw [hl, Option.map_some, Option.map_some, h.call_eq h' (hlabels _ (List.mem_of_getElem? hl))
        (hlabels' _ (List.mem_of_getElem? hl')) heq]

end Shape

/-! ## 2. Accepted both ways -/

section Accepted

variable {α : Type} [Scalar α] {table : NodeTable α} {time : α} {keepNatives keepOthers : Bool}

/-- Every node that was met has been read, but for the first one, and its children are known. -/
theorem WalkedFromRoot.exists_below {source : Tree (SourceNode α)} {tree : CallTree α}
    {trail : Trail α} (h : WalkedFromRoot table time keepNatives source tree trail)
    (hi : table.Indexed) (hpos : 0 < table.nodes.length)
    (hlength : trail.length = table.nodes.length) :
    ∀ position < table.nodes.length, ∃ below,
      Names table.nodes (listed (nodeIn table.nodes position)) below ∧
        (position ≠ 0 → ∃ node, read table time keepNatives position = .ok node ∧
          node.below = below) := by
  intro position hp
  rcases Nat.eq_zero_or_pos position with rfl | hne
  · obtain ⟨referrer, hfind⟩ := h.rootChildren
    exact ⟨_, (mapM_eq_ok_iff.mp hfind).imp fun id child hchild => hi.find_eq_ok_iff.mp hchild,
      fun hne => absurd rfl hne⟩
  · obtain ⟨node, hnode, rfl⟩ := List.mem_map.mp
      ((h.positions hi hpos hlength).mem_iff.mpr (List.mem_range.mpr hp))
    have hbelow : node ∈ labelsAll source.children := by
      have hroot := h.root
      obtain ⟨root, forest⟩ := source
      rcases List.mem_cons.mp hnode with rfl | hmem
      · rw [label_node] at hroot
        omega
      · exact hmem
    have hread := h.read_of_mem hbelow
    exact ⟨_, names_of_read hi hread, fun _ => ⟨node, hread, rfl⟩⟩

/-- A walk that meets all nodes one way does so the other way. -/
theorem exists_fromRoot_of_fromRoot {tree : CallTree α} {trail : Trail α} (hi : table.Indexed)
    (hpos : 0 < table.nodes.length) (htree : ListsTree table)
    (h : fromRoot table time keepNatives = .ok (tree, trail))
    (hlength : trail.length = table.nodes.length)
    (helided : ∀ position < table.nodes.length, position ≠ 0 →
      ∃ elided, isElided keepOthers (nodeIn table.nodes position) = .ok elided) :
    ∃ other met, fromRoot table time keepOthers = .ok (other, met) ∧
      (met.map Prod.fst).Perm ((List.range table.nodes.length).map (keyIn table.nodes)) := by
  obtain ⟨source, hsource⟩ := exists_walkedFromRoot hi hpos h
  have hbelow := hsource.exists_below hi hpos hlength
  choose! below hnames hread using hbelow
  obtain ⟨-, -, -, call, ids, -, -, -, hcall, hids, -, -⟩ := fromRoot_eq_ok_iff.mp h
  have hothers : ∀ position < table.nodes.length, position ≠ 0 → Ends (fun _ => False)
      (fun node => node.below = below position) (read table time keepOthers position) := by
    intro position hp hne
    obtain ⟨node, hnode, hchildren⟩ := hread position hp hne
    obtain ⟨elided, hother⟩ := helided position hp hne
    obtain ⟨-, hkey, hcall, -, hlists⟩ := read_eq_ok_iff.mp hnode
    exact .of_eq_ok (a := ⟨position, node.key, node.call, elided, node.below⟩)
      (read_eq_ok_iff.mpr ⟨rfl, hkey, hcall, hother, hlists⟩) hchildren
  obtain ⟨⟨other, met⟩, hok, hkeys⟩ := (ends_fromRoot hi hpos hnames (.of_eq_ok hcall trivial)
    hothers ⟨ids, hids⟩ htree).exists_ok
  exact ⟨other, met, hok, hkeys⟩

/-- **What is accepted one way is accepted the other way, if it can be told which nodes are
dropped.** -/
theorem exists_ofNodes_of_ofNodes {nodes : List (Fields Rat)} {samples : Option (List (Value Rat))}
    {start finish : Value Rat} {result : Contraction Rat}
    (h : (ofNodes (nodes.map .obj) (.ofOption (samples.map .list)) start finish keepNatives).2 =
      .ok result)
    (helided : ∀ node ∈ nodes.drop 1, ∃ elided, isElided keepOthers node = .ok elided) :
    ∃ other, (ofNodes (nodes.map .obj) (.ofOption (samples.map .list)) start finish keepOthers).2 =
      .ok other := by
  obtain ⟨filled, apart, source, -, hsource⟩ := exists_source h
  have hdescribes := hsource.describes
  obtain ⟨hne, given, hgiven, hhits, hchildren, hresult⟩ := ofNodes_eq_ok_iff.mp h
  obtain ⟨hnodes, hindexed⟩ := indexed_ofNodes hgiven
  obtain ⟨htotal, time, htime, trail, hroot, hlength, hsamples⟩ := ofTable_eq_ok_iff.mp hresult
  have hfilled := filled_filledTable hgiven hchildren
  have hpos : 0 < (filledTable given (.ofOption (samples.map .list))).nodes.length :=
    hfilled.length ▸ List.length_pos_of_ne_nil hne
  have htree := listsTree_of_filled hfilled (fromRoot_eq_ok_iff.mp hroot).1
    (fun position hp => hdescribes.occurrences_eq hindexed hnodes hp)
    (fun position hp => hdescribes.reachable hp)
  have htold : ∀ position < (filledTable given (.ofOption (samples.map .list))).nodes.length,
      position ≠ 0 → ∃ elided, isElided keepOthers
        (nodeIn (filledTable given (.ofOption (samples.map .list))).nodes position) = .ok elided := by
    intro position hp hne
    rw [hfilled.length] at hp
    have hmem : nodeIn nodes position ∈ nodes.drop 1 := by
      rw [nodeIn_eq_getElem hp]
      exact List.mem_drop_iff_getElem.mpr ⟨position - 1, by omega, by congr 1; omega⟩
    rw [isElided_congr (hfilled.others position "callFrame" (by decide) (by decide))
      (hfilled.others position "url" (by decide) (by decide))]
    exact helided _ hmem
  obtain ⟨tree, met, hother, hkeys⟩ :=
    exists_fromRoot_of_fromRoot hfilled.indexed hpos htree hroot hlength htold
  -- the same nodes were met, so the samples can be redirected
  obtain ⟨redirected, hredirected⟩ := exists_redirectSamples samples met fun ids hids id hid => by
    subst hids
    have hrel := redirected_of_redirectSamples hdescribes hsource.samples
    generalize result.samples = given at hrel
    cases hrel with
    | some hnamed =>
      obtain ⟨-, -, node, hnode, -, hname, -⟩ := exists_of_forall₂ hnamed hid
      have hp := hdescribes.lt hnode
      rw [← hfilled.ids] at hname
      rw [← hfilled.length] at hp
      refine ⟨_, (hfilled.indexed.sameName_iff hp).mp hname, hkeys.mem_iff.mpr ?_⟩
      exact List.mem_map_of_mem (List.mem_range.mpr hp)
  refine ⟨⟨tree, result.totalHits, redirected⟩, ofNodes_eq_ok_iff.mpr ⟨hne, given, hgiven, hhits,
    hchildren, ofTable_eq_ok_iff.mpr ⟨htotal, time, htime, met, hother, ?_, hredirected⟩⟩⟩
  simpa using hkeys.length_eq

end Accepted

/-! ## 3. The same time both ways -/

section Time

variable {nodes filled : List (Fields Rat)} {samples : Option (List (Value Rat))}
  {start finish : Value Rat} {keepNatives keepOthers : Bool} {result kept : Contraction Rat}
  {time : Rat} {source other : Tree (SourceNode Rat)}

/-- Both results are made from source trees over the same nodes. -/
theorem exists_sources
    (h : (ofNodes (nodes.map .obj) (.ofOption (samples.map .list)) start finish keepNatives).2 =
      .ok result)
    (h' : (ofNodes (nodes.map .obj) (.ofOption (samples.map .list)) start finish keepOthers).2 =
      .ok kept) :
    kept.totalHits = result.totalHits ∧ ∃ filled time source other,
      filled.length = nodes.length ∧
      HasSource nodes filled (.ofOption (samples.map .list)) start finish keepNatives result time
        source ∧
      HasSource nodes filled (.ofOption (samples.map .list)) start finish keepOthers kept time
        other := by
  obtain ⟨filled, time, source, hfst, hsource⟩ := exists_source h
  obtain ⟨filled', time', other, hfst', hother⟩ := exists_source h'
  obtain ⟨-, table, htable, -⟩ := ofNodes_eq_ok_iff.mp h
  rw [ofNodes_fst_of_ok h htable] at hfst
  rw [ofNodes_fst_of_ok h' htable, hfst] at hfst'
  obtain rfl : filled = filled' :=
    (List.map_injective_iff.mpr fun _ _ => Value.obj.inj) hfst'
  have hhits : kept.totalHits = result.totalHits := by
    have htotal := hsource.totalHits
    rw [hother.totalHits] at htotal
    exact Except.ok.inj htotal
  obtain rfl : time = time' := by
    have hapart := hsource.apart
    rw [← hhits, hother.apart] at hapart
    exact (Except.ok.inj hapart).symm
  have hlength : filled.length = nodes.length := by
    have hmap := congrArg List.length hfst
    obtain ⟨-, table', htable', -, hchildren, -⟩ := ofNodes_eq_ok_iff.mp h
    obtain rfl := Except.ok.inj (htable.symm.trans htable')
    rw [toList, List.length_map, List.length_map] at hmap
    rw [← hmap, (filled_filledTable htable hchildren).length]
  exact ⟨hhits, filled, time, source, other, hlength, hsource, hother⟩

/-- Where natives are kept no node is dropped. -/
theorem Describes.kept_of_keepNatives (h : Describes nodes filled time true source) :
    ∀ node ∈ source.labels, node.elided = false := by
  intro node hnode
  rw [h.elided_eq_false_iff hnode]
  exact .inr rfl

/-- **What is left below a node without the natives has the time of what is below it with them.** -/
theorem HasSource.exists_subtree {given : Value Rat}
    (h : HasSource nodes filled given start finish true result time source)
    (h' : HasSource nodes filled given start finish keepOthers kept time other)
    {table : NodeTable Rat} (hi : table.Indexed) (htable : table.nodes = nodes) {tree : CallTree Rat}
    (htree : tree ∈ kept.tree.subtrees) :
    ∃ full ∈ result.tree.subtrees, full.label.id = tree.label.id ∧ selfSum full = selfSum tree := by
  rw [h'.tree] at htree
  rw [h.tree]
  obtain ⟨node, below, hmem, -, hid, hsum⟩ := exists_subtree_of_kept h'.describes.rootKept htree
  obtain ⟨node', below', hmem', -, hcall, hcalls⟩ :=
    h'.describes.exists_counterpart h.describes hi htable hmem
  have hkept := h.describes.kept_of_keepNatives node'
    (mem_labels_of_mem_subtrees hmem' _ List.mem_cons_self)
  obtain ⟨full, hfull, hfullId, hfullSum⟩ :=
    exists_kept_of_subtree h.describes.rootKept hmem' hkept
  have hweight : weightOf (.node node' below') = weightOf (.node node below) := by
    have hselfs := congrArg (fun calls => (calls.map Call.self).sum) hcalls
    simpa only [weightOf, List.map_map, Function.comp_def] using hselfs
  refine ⟨full, hfull, ?_, ?_⟩
  · rw [hfullId, hcall, hid]
  · rw [hfullSum, hweight, hsum]

/-- **All calls have the time of all hits.** -/
theorem HasSource.selfSum_eq {given : Value Rat}
    (h : HasSource nodes filled given start finish keepNatives result time source)
    (hlength : filled.length = nodes.length) : selfSum result.tree = result.totalHits * time := by
  obtain ⟨hits, hhits, htotal⟩ := exists_hits_of_foldlM filled h.totalHits
  have hcount : hits.length = nodes.length := by rw [← hhits.length_eq, hlength]
  let hitAt : Nat → Rat := fun position => (hits[position]?).getD 0
  have hself : ∀ node ∈ source.labels, node.call.self = hitAt node.position * time := by
    intro node hnode
    have hp := h.describes.lt hnode
    have hreports := Call.reports_of_ofFields (h.describes.call node hnode)
    obtain ⟨count, hnumber, hself⟩ := hreports.self
    have hhit := hhits.get (i := node.position) (by omega) (by omega)
    rw [List.get_eq_getElem, List.get_eq_getElem, ← nodeIn_eq_getElem, ← hreports.hits,
      Value.number, hnumber] at hhit
    have hread : hitAt node.position = count := by
      have hlt : node.position < hits.length := by omega
      rw [Except.ok.inj hhit]
      simp [hitAt, hlt]
    rw [hread, hself]
  have hhitAt : (List.range nodes.length).map hitAt = hits := by
    refine List.ext_getElem (by simp [hcount]) fun position hp hp' => ?_
    simp [hitAt, hp']
  have hsum : hits.sum = result.totalHits := by
    rw [htotal]
    exact List.sum_eq_foldl
  calc selfSum result.tree = (source.labels.map (·.call.self)).sum := by
        rw [h.tree, selfSum_grown h.describes.rootKept, weightOf]
    _ = ((source.labels.map (·.position)).map fun position => hitAt position * time).sum := by
        rw [List.map_map]
        exact congrArg List.sum (List.map_congr_left hself)
    _ = ((List.range nodes.length).map fun position => hitAt position * time).sum :=
        (h.describes.positions.map _).sum_eq
    _ = ((List.range nodes.length).map hitAt).sum * time := List.sum_map_mul_right ..
    _ = result.totalHits * time := by rw [hhitAt, hsum]

/-- The time of all hits is the span of the profile, if there are any. -/
theorem mul_sampleTime_eq {total : Rat} (h : sampleTime total start finish = .ok time)
    (hne : total ≠ 0) : ∃ first last, start.number? = some first ∧ finish.number? = some last ∧
      total * time = last - first := by
  have hzero : Scalar.isZero total = false := by
    refine decide_eq_false fun heq => hne ?_
    exact Magnitude.finite.inj heq
  rw [sampleTime, hzero, if_neg Bool.false_ne_true] at h
  obtain ⟨span, hspan, hdiv⟩ := bind_eq_ok.mp h
  obtain ⟨-, rfl⟩ := Scalar.guarded_eq_ok_iff.mp hdiv
  unfold Value.sub at hspan
  split at hspan
  · rename_i last first hlast hfirst
    obtain ⟨-, rfl⟩ := Scalar.guarded_eq_ok_iff.mp hspan
    exact ⟨first, last, hfirst, hlast, mul_div_cancel₀ _ hne⟩
  · cases hspan

/-- **Without the natives every node keeps its time.** -/
theorem exists_full_of_kept
    (h : (ofNodes (nodes.map .obj) (.ofOption (samples.map .list)) start finish true).2 =
      .ok result)
    (h' : (ofNodes (nodes.map .obj) (.ofOption (samples.map .list)) start finish keepOthers).2 =
      .ok kept) {tree : CallTree Rat} (htree : tree ∈ kept.tree.subtrees) :
    ∃ full ∈ result.tree.subtrees, full.label.id = tree.label.id ∧ selfSum full = selfSum tree := by
  obtain ⟨-, filled, time, source, other, -, hsource, hother⟩ := exists_sources h h'
  obtain ⟨-, table, htable, -⟩ := ofNodes_eq_ok_iff.mp h
  obtain ⟨hnodes, hi⟩ := indexed_ofNodes htable
  exact hsource.exists_subtree hother hi hnodes htree

/-- **If there are hits, the calls have the time from the start of the profile to its end.** -/
theorem selfSum_of_ofNodes
    (h : (ofNodes (nodes.map .obj) (.ofOption (samples.map .list)) start finish keepNatives).2 =
      .ok result) (hne : result.totalHits ≠ 0) :
    ∃ first last, start.number? = some first ∧ finish.number? = some last ∧
      selfSum result.tree = last - first := by
  obtain ⟨-, filled, time, source, -, hlength, hsource, -⟩ := exists_sources h h
  obtain ⟨first, last, hfirst, hlast, hspan⟩ := mul_sampleTime_eq hsource.apart hne
  exact ⟨first, last, hfirst, hlast, (hsource.selfSum_eq hlength).trans hspan⟩

end Time

end Contraction
end SampledProfile
