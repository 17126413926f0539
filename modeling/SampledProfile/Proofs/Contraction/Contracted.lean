/-
# The call tree is the source tree without its dropped nodes

What `Contraction.ofNodes` gives is said here of the source tree of the list alone, without a
walk: which nodes are kept and where they stand, whose time and whose samples they take over
(`IsContraction`).  `isContraction_of_ofNodes` says that every accepted list is contracted so.

The nodes that a kept node is the nearest one above stand UNDER it: the kept ones among them become
its children, the dropped ones leave it their time.
-/
import SampledProfile.Numeric.Exact
import SampledProfile.Proofs.Contraction.Source

namespace SampledProfile
namespace Contraction

open Outcome NodeTable SampledProfile.Tree

variable {α : Type}

/-! ## 1. What a contraction is -/

open Classical in
/-- The nodes that a kept node is the nearest one above, in the order of the walk from the right. -/
noncomputable def under (source : Tree (SourceNode α)) (node : SourceNode α) :
    List (SourceNode α) :=
  source.walkOrder.filter fun other => NearestKept (·.elided) source node other

/-- The tree of the kept nodes of a source tree. -/
structure IsKeptTree (source kept : Tree (SourceNode α)) : Prop where
  root : kept.label = source.label
  /-- Every node that is not dropped stands in it once, and no other. -/
  labels : kept.labels = source.walkOrder.filter fun node => !node.elided
  /-- The children of a node are the kept nodes that it is the nearest one above. -/
  children : ∀ node below, (node, below) ∈ kept.flatten →
    below = (under source node).filter fun other => !other.elided

variable [Scalar α]

/-- Every sample stands for the id of the node that it names, or of the nearest kept node above. -/
def Redirected (nodes : List (Fields α)) (source : Tree (SourceNode α))
    (samples redirected : List (Value α)) : Prop :=
  List.Forall₂
    (fun sample id => ∃ node ∈ source.labels, ∃ kept, sample.SameName (idIn nodes node.position) ∧
      StandsFor (·.elided) source kept node ∧ id = kept.call.id)
    samples redirected

/-- The hits of all nodes, added one after another. -/
def SumsHits (nodes : List (Fields α)) (sum : α) : Prop :=
  ∃ hits, List.Forall₂
      (fun node hit => ((node.get "hitCount").orElse (.int 0)).number = .ok hit) nodes hits ∧
    sum = hits.foldl (· + ·) (Scalar.ofInt 0)

/-- The result for a list of nodes is what its source tree contracts to.  `filled` is the list with
hits and children filled in, the samples are `time` apart, and `kept` has the nodes that are
left. -/
structure IsContraction (nodes filled : List (Fields α)) (samples : Option (List (Value α)))
    (start finish : Value α) (keepNatives : Bool) (result : Contraction α) (time : α)
    (source kept : Tree (SourceNode α)) : Prop where
  /-- Only hits and children are filled in. -/
  others : ∀ position name, name ≠ "hitCount" → name ≠ "children" →
    (nodeIn filled position).get? name = (nodeIn nodes position).get? name
  /-- The hits are those reported, or one for every sample of the node. -/
  hits : ∀ position < nodes.length, (nodeIn filled position).get "hitCount" =
    hitsIn nodes (samples.getD []) position
  describes : Describes nodes filled time keepNatives source
  keptTree : IsKeptTree source kept
  /-- Every call has the id and the hits of its node, and the time of these hits. -/
  reports : ∀ node ∈ source.labels, node.call.Reports (nodeIn filled node.position) time
  /-- A kept node has its own time, to which that of the dropped nodes under it is added, one after
  another in the order of the walk.  Nothing else in its call changes. -/
  tree : result.tree = kept.map fun node =>
    { node.call with
      self := ((under source node).filter (·.elided)).foldl
        (fun time dropped => time + dropped.call.self) node.call.self }
  samples : Option.Rel (Redirected nodes source) samples result.samples
  totalHits : SumsHits filled result.totalHits
  /-- The span of the profile is shared out among all hits, if there are any. -/
  apart : if Scalar.isZero result.totalHits then time = 0
    else ∃ span, finish.sub start = .ok span ∧ time = span / result.totalHits

/-! ## 2. The kept nodes -/

omit [Scalar α] in
/-- Every label that is left notes the labels that stand under it. -/
theorem eq_under_of_mem {source : Tree (SourceNode α)} (hnd : source.labels.Nodup)
    {pair : SourceNode α × List (SourceNode α)}
    (h : pair ∈ labelsAll (contractAll (·.elided) [source])) : pair.2 = under source pair.1 := by
  rw [labelsAll_eq] at h
  obtain ⟨⟨label, below⟩, hmem, rfl⟩ := List.mem_map.mp h
  obtain ⟨hkept, inner, hinner, hsurface, -⟩ := of_mem_subtreesAll_contractAll _ _ hmem
  rw [label_node, hsurface]
  exact surfaceAll_eq_filter hnd hkept (by simpa [subtreesAll] using hinner)

omit [Scalar α] in
/-- The labels that are left are the kept nodes, and each has what it should have below it. -/
theorem isKeptTree_of_contractAll {source : Tree (SourceNode α)} (hnd : source.labels.Nodup)
    {contracted : Tree (SourceNode α × List (SourceNode α))}
    (h : contractAll (·.elided) [source] = [contracted])
    (hroot : contracted.label.1 = source.label) :
    IsKeptTree source (contracted.map Prod.fst) := by
  have hmap : [contracted.map Prod.fst] = mapAll Prod.fst (contractAll (·.elided) [source]) := by
    rw [h]
    rfl
  refine ⟨?_, ?_, fun node below hmem => ?_⟩
  · obtain ⟨pair, below⟩ := contracted
    exact hroot
  · calc (contracted.map Prod.fst).labels = labelsAll [contracted.map Prod.fst] := by simp
      _ = (labelsAll (contractAll (·.elided) [source])).map Prod.fst := by
        rw [hmap, labelsAll_mapAll]
      _ = source.walkOrder.filter fun node => !node.elided := by
        rw [labelsAll_contractAll]
        simp [walkOrderAll]
  · replace hmem :
        (node, below) ∈ flattenAll (mapAll Prod.fst (contractAll (·.elided) [source])) := by
      rw [← hmap]
      simpa [flattenAll] using hmem
    rw [flattenAll_mapAll] at hmem
    obtain ⟨⟨pair, labels⟩, hentry, heq⟩ := List.mem_map.mp hmem
    obtain ⟨rfl, rfl⟩ := Prod.mk.inj heq
    rw [flattenAll_eq] at hentry
    obtain ⟨⟨pair, trees⟩, htree, heq⟩ := List.mem_map.mp hentry
    obtain ⟨rfl, rfl⟩ := Prod.mk.inj heq
    obtain ⟨-, inner, -, hsurface, rfl⟩ := of_mem_subtreesAll_contractAll _ _ htree
    have hpair : pair ∈ labelsAll (contractAll (·.elided) [source]) := by
      rw [labelsAll_eq]
      exact List.mem_map_of_mem htree
    rw [label_node, ← eq_under_of_mem hnd hpair, hsurface, ← map_label_contractAll, children_node,
      List.map_map]
    rfl

/-! ## 3. Redirected samples -/

omit [Scalar α] in
/-- What the trail of a tree has under a name is the id of what stands for the node so named. -/
theorem standsFor_of_mem_trailOf {source : Tree (SourceNode α)}
    (hroot : source.label.elided = false)
    {entry : Key × Value α} (h : entry ∈ trailOf source) :
    ∃ node ∈ source.labels, ∃ kept, StandsFor (·.elided) source kept node ∧
      entry = (node.key, kept.call.id) := by
  obtain ⟨root, forest⟩ := source
  simp only [trailOf, label_node, children_node, List.mem_append, List.mem_reverse,
    List.mem_singleton] at h
  rcases h with h | rfl
  · obtain ⟨pair, hpair, rfl⟩ := List.mem_map.mp h
    refine ⟨pair.1, ?_, pair.2, ?_, rfl⟩
    · have hfst := List.mem_map_of_mem (f := Prod.fst) hpair
      rw [map_fst_standAll, mem_walkOrderAll] at hfst
      exact List.mem_cons_of_mem _ hfst
    · refine standsFor_of_mem_standAll forest (fun part hpart => List.mem_cons_of_mem _ hpart)
        (fun child hchild => .child hroot ?_) hpair
      exact isChild_of_mem_subtreesAll List.mem_cons_self hchild
  · have hkept : root.elided = false := hroot
    exact ⟨root, List.mem_cons_self, root, by simp [StandsFor, hkept], rfl⟩

theorem redirected_of_redirectSamples {nodes filled : List (Fields α)} {time : α}
    {keepNatives : Bool} {source : Tree (SourceNode α)}
    (h : Describes nodes filled time keepNatives source) {samples : Option (List (Value α))}
    {redirected : Option (List (Value α))}
    (hsamples : redirectSamples (trailOf source) (.ofOption (samples.map .list)) = .ok redirected) :
    Option.Rel (Redirected nodes source) samples redirected := by
  cases samples with
  | none =>
    obtain rfl : none = redirected := Except.ok.inj hsamples
    exact .none
  | some samples =>
    obtain ⟨given, hgiven, hids⟩ := bind_eq_ok.mp hsamples
    obtain rfl : samples = given := Except.ok.inj hgiven
    obtain ⟨ids, hmap, hall⟩ := bind_eq_ok.mp hids
    obtain rfl := pure_eq_ok.mp hall
    refine .some ((mapM_eq_ok_iff.mp hmap).imp fun sample id hid => ?_)
    obtain ⟨key, hkey, hfound⟩ := bind_eq_ok.mp hid
    cases hlook : key.lookup (trailOf source) with
    | none => simp [hlook] at hfound
    | some found =>
      rw [hlook] at hfound
      obtain rfl := pure_eq_ok.mp hfound
      obtain ⟨node, hnode, kept, hstands, heq⟩ :=
        standsFor_of_mem_trailOf h.rootKept (Key.mem_of_lookup_eq_some hlook)
      obtain ⟨rfl, rfl⟩ := Prod.mk.inj heq
      exact ⟨node, hnode, kept, ⟨_, hkey, h.key node hnode⟩, hstands, rfl⟩

/-- A tree grown from its root is the contracted tree with the calls of its nodes. -/
theorem mapAll_contractAll_eq {source : Tree (SourceNode α)}
    (hroot : source.label.elided = false) :
    mapAll (fun pair => absorbAll pair.1.call pair.2) (contractAll (·.elided) [source]) =
      [grown (.leaf source.label.call) source.children] := by
  obtain ⟨root, forest⟩ := source
  have hkept : root.elided = false := hroot
  simp [contractAll, contract, hkept, mapAll, map, grown, leaf]

/-- Only the time of the call changes, which takes up that of the dropped nodes from the left. -/
theorem absorbAll_eq (call : Call α) (nodes : List (SourceNode α)) :
    absorbAll call nodes =
      { call with
        self := (nodes.filter (·.elided)).foldl
          (fun time dropped => time + dropped.call.self) call.self } := by
  unfold absorbAll
  induction nodes.filter (·.elided) generalizing call with
  | nil => rfl
  | cons node rest ih =>
    rw [List.foldl_cons, ih, List.foldl_cons]
    rfl

theorem id_absorbAll (call : Call α) (nodes : List (SourceNode α)) :
    (absorbAll call nodes).id = call.id := by
  rw [absorbAll_eq]

/-- **The samples of a result are ids of its tree.** -/
theorem exists_label_of_mem_samples {nodes : List (Fields α)} {given start finish : Value α}
    {keepNatives : Bool} {result : Contraction α}
    (h : (ofNodes (nodes.map .obj) given start finish keepNatives).2 = .ok result)
    {samples : List (Value α)} (hsamples : result.samples = some samples) :
    ∀ id ∈ samples, ∃ call ∈ result.tree.labels, call.id = id := by
  obtain ⟨filled, time, source, -, hsource⟩ := exists_source h
  have hroot := hsource.describes.rootKept
  have hredirect := hsource.samples
  rw [hsamples] at hredirect
  unfold redirectSamples at hredirect
  split at hredirect
  · cases hredirect
  intro id hid
  obtain ⟨items, -, hall⟩ := bind_eq_ok.mp hredirect
  obtain ⟨ids, hmap, hall⟩ := bind_eq_ok.mp hall
  obtain rfl := Option.some.inj (pure_eq_ok.mp hall)
  obtain ⟨sample, -, hsample⟩ := mem_of_mapM hmap hid
  obtain ⟨key, -, hfound⟩ := bind_eq_ok.mp hsample
  cases hlook : key.lookup (trailOf source) with
  | none => simp [hlook] at hfound
  | some found =>
    rw [hlook] at hfound
    obtain rfl := pure_eq_ok.mp hfound
    obtain ⟨node, hnode, kept, hstands, heq⟩ :=
      standsFor_of_mem_trailOf hroot (Key.mem_of_lookup_eq_some hlook)
    obtain ⟨-, rfl⟩ := Prod.mk.inj heq
    obtain ⟨hkept, hlabel⟩ := hstands.kept hnode
    have hleft : kept ∈ (labelsAll (contractAll (·.elided) [source])).map Prod.fst := by
      rw [labelsAll_contractAll, List.mem_filter, mem_walkOrderAll]
      exact ⟨by simpa using hlabel, by simp [hkept]⟩
    obtain ⟨pair, hpair, rfl⟩ := List.mem_map.mp hleft
    refine ⟨absorbAll pair.1.call pair.2, ?_, id_absorbAll _ _⟩
    have hmem := List.mem_map_of_mem (f := fun pair => absorbAll pair.1.call pair.2) hpair
    rw [← labelsAll_mapAll, mapAll_contractAll_eq hroot, ← hsource.tree] at hmem
    simpa using hmem

/-! ## 4. The result -/

/-- What is summed up step by step from some start on. -/
theorem exists_hits_of_foldlM : ∀ (nodes : List (Fields α)) {start sum : α},
    nodes.foldlM (fun sum node => do
      Scalar.add? sum (← ((node.get "hitCount").orElse (.int 0)).number)) start = .ok sum →
    ∃ hits, List.Forall₂
        (fun node hit => ((node.get "hitCount").orElse (.int 0)).number = .ok hit) nodes hits ∧
      sum = hits.foldl (· + ·) start
  | [], start, sum, h => ⟨[], .nil, (pure_eq_ok.mp h).symm⟩
  | _ :: rest, start, sum, h => by
    rw [List.foldlM_cons] at h
    obtain ⟨next, hnext, hrest⟩ := bind_eq_ok.mp h
    obtain ⟨hit, hhit, hadd⟩ := bind_eq_ok.mp hnext
    obtain ⟨-, rfl⟩ := Scalar.guarded_eq_ok_iff.mp hadd
    obtain ⟨hits, hhits, rfl⟩ := exists_hits_of_foldlM rest hrest
    exact ⟨hit :: hits, .cons hhit hhits, rfl⟩

omit [Scalar α] in
theorem items_ofOption (samples : Option (List (Value α))) :
    ((Value.ofOption (samples.map .list)).items.toOption).getD [] = samples.getD [] := by
  cases samples <;> rfl

/-- The time between two samples is the span over all hits, or nothing. -/
theorem apart_of_sampleTime {totalHits time : α} {start finish : Value α}
    (h : sampleTime totalHits start finish = .ok time) :
    if Scalar.isZero totalHits then time = 0
    else ∃ span, finish.sub start = .ok span ∧ time = span / totalHits := by
  unfold sampleTime at h
  split at h
  · rename_i hzero
    rw [if_pos hzero]
    exact (Except.ok.inj h).symm
  · rename_i hzero
    rw [if_neg hzero]
    obtain ⟨span, hspan, hdivided⟩ := bind_eq_ok.mp h
    obtain ⟨-, rfl⟩ := Scalar.guarded_eq_ok_iff.mp hdivided
    exact ⟨span, hspan, rfl⟩

/-- **The result for every accepted list is what its source tree contracts to.** -/
theorem isContraction_of_ofNodes {nodes : List (Fields α)} {samples : Option (List (Value α))}
    {start finish : Value α} {keepNatives : Bool} {result : Contraction α}
    (h : (ofNodes (nodes.map .obj) (.ofOption (samples.map .list)) start finish keepNatives).2 =
      .ok result) :
    ∃ filled time source kept,
      (ofNodes (nodes.map .obj) (.ofOption (samples.map .list)) start finish keepNatives).1 =
        filled.map .obj ∧
      IsContraction nodes filled samples start finish keepNatives result time source kept := by
  obtain ⟨filled, time, source, hfilled, hsource⟩ := exists_source h
  have hdescribes := hsource.describes
  have hnd : source.labels.Nodup :=
    .of_map (·.position) (hdescribes.positions.nodup_iff.mpr List.nodup_range)
  let contracted : Tree (SourceNode α × List (SourceNode α)) :=
    .node (source.label, surfaceAll (·.elided) source.children)
      (contractAll (·.elided) source.children)
  have hcontracted : contractAll (·.elided) [source] = [contracted] := by
    obtain ⟨root, forest⟩ := source
    have hkept : root.elided = false := hdescribes.rootKept
    simp [contractAll, contract, hkept, contracted]
  refine ⟨filled, time, source, contracted.map Prod.fst, hfilled, ?_⟩
  constructor
  case others => exact hsource.others
  case hits => exact items_ofOption samples ▸ hsource.hits
  case describes => exact hdescribes
  case keptTree => exact isKeptTree_of_contractAll hnd hcontracted rfl
  case reports => exact fun node hnode => Call.reports_of_ofFields (hdescribes.call node hnode)
  case tree =>
    have hmap := mapAll_mapAll (f := Prod.fst)
      (g := fun node => absorbAll node.call (under source node))
      (k := fun pair => absorbAll pair.1.call pair.2) [contracted] fun pair hpair => by
        rw [eq_under_of_mem hnd (by rw [hcontracted]; exact hpair)]
    have hgrown : [result.tree] =
        mapAll (fun pair => absorbAll pair.1.call pair.2) [contracted] := by
      rw [← hcontracted, mapAll_contractAll_eq hdescribes.rootKept, hsource.tree]
    rw [← hmap] at hgrown
    simp only [absorbAll_eq] at hgrown
    exact (List.cons.inj hgrown).1
  case samples => exact redirected_of_redirectSamples hdescribes hsource.samples
  case totalHits => exact exists_hits_of_foldlM _ hsource.totalHits
  case apart => exact apart_of_sampleTime hsource.apart

/-- A list of nodes with a native function between two others. -/
def smallProfile : List (Fields Rat) :=
  [[("id", .int 1), ("hitCount", .int 1), ("children", .list [.int 2, .int 4]), ("url", .str "")],
    [("id", .int 2), ("hitCount", .int 2), ("children", .list [.int 3]),
      ("url", .str "native array.js")],
    [("id", .int 3), ("hitCount", .int 3), ("url", .str "app.js")],
    [("id", .int 4), ("hitCount", .int 4), ("url", .str "app.js")]]

theorem isContraction_smallProfile :
    ∃ result filled time source kept,
      (ofNodes (smallProfile.map .obj) (.ofOption ((some [.int 3, .int 2]).map .list))
        (.int 0) (.int 20) false).2 = .ok result ∧
      IsContraction smallProfile filled (some [.int 3, .int 2]) (.int 0) (.int 20) false result time
        source kept := by
  have hok : (ofNodes (smallProfile.map .obj) (.ofOption ((some [.int 3, .int 2]).map .list))
      (.int 0) (.int 20) false).2.isOk = true := by
    decide +kernel
  obtain ⟨result, h⟩ := exists_of_isOk hok
  obtain ⟨filled, time, source, kept, -, hcontraction⟩ := isContraction_of_ofNodes h
  exact ⟨result, filled, time, source, kept, h, hcontraction⟩

end Contraction
end SampledProfile
