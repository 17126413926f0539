/-
# The ids of a call tree

The call tree of an accepted list has the ids of the nodes that are KEPT (`IsKept`): the first node
is, and any other that is not dropped.

* `HasSource.ids_eq`: these are the ids, in the order of the walk;
* `mem_ids_iff_isKept`: an id stands in the tree exactly if it is that of a kept node;
* `keys_of_ofNodes`: no id stands in the tree twice, and every id can be looked up.
-/
import SampledProfile.Proofs.Contraction.Contracted

namespace SampledProfile
namespace Contraction

open Outcome NodeTable SampledProfile.Tree

variable {α : Type} [Scalar α]

/-! ## 1. Kept nodes -/

/-- The value is the id of a kept node. -/
def IsKept (nodes : List (Fields α)) (keepNatives : Bool) (id : Value α) : Prop :=
  ∃ position node, nodes[position]? = some node ∧ node.get "id" = id ∧
    (position = 0 ∨ isElided keepNatives node = .ok false)

/-- Whether a node is native depends on two fields of it. -/
theorem isElided_congr {node other : Fields α} {keepNatives : Bool}
    (hframe : node.get? "callFrame" = other.get? "callFrame")
    (haddress : node.get? "url" = other.get? "url") :
    isElided keepNatives node = isElided keepNatives other := by
  have haddressOf : Frame.addressOf node = Frame.addressOf other := by
    unfold Frame.addressOf Fields.get
    rw [hframe, haddress]
  simp only [isElided, Frame.isNative, haddressOf]

variable {nodes filled : List (Fields α)} {samples : Option (List (Value α))}
  {given start finish : Value α} {keepNatives : Bool} {result : Contraction α} {time : α}
  {source : Tree (SourceNode α)}

/-- The root is kept, and any other node if it is not to be dropped. -/
theorem Describes.elided_eq_false_iff (h : Describes nodes filled time keepNatives source)
    {node : SourceNode α} (hnode : node ∈ source.labels) :
    node.elided = false ↔
      node.position = 0 ∨ isElided keepNatives (nodeIn filled node.position) = .ok false := by
  by_cases hroot : node.position = 0
  · have hnd : (source.labels.map (·.position)).Nodup :=
      h.positions.nodup_iff.mpr List.nodup_range
    have hlabel : source.label ∈ source.labels := by
      obtain ⟨root, forest⟩ := source
      exact List.mem_cons_self
    obtain rfl := List.inj_on_of_nodup_map hnd hnode hlabel (hroot.trans h.root.symm)
    exact iff_of_true h.rootKept (.inl hroot)
  · rw [h.elided node hnode hroot, Except.ok.injEq]
    exact (or_iff_right hroot).symm

/-! ## 2. The ids of a tree -/

/-- The ids of the tree are those of the nodes that are not dropped. -/
theorem HasSource.ids_eq
    (h : HasSource nodes filled given start finish keepNatives result time source) :
    result.tree.labels.map (·.id) =
      (source.walkOrder.filter fun node => !node.elided).map
        fun node => idIn nodes node.position := by
  have hdescribes := h.describes
  have hid : ∀ node ∈ source.labels, node.call.id = idIn nodes node.position := by
    intro node hnode
    rw [(Call.reports_of_ofFields (hdescribes.call node hnode)).id, Fields.get,
      h.others _ "id" (by decide) (by decide), ← Fields.get, ← idIn]
  have htree : result.tree.labels = (labelsAll (contractAll (·.elided) [source])).map
      fun pair => absorbAll pair.1.call pair.2 := by
    rw [h.tree, ← labelsAll_mapAll, mapAll_contractAll_eq hdescribes.rootKept, labelsAll_cons,
      labelsAll_nil, List.append_nil]
  have hkept := labelsAll_contractAll (·.elided) [source]
  rw [walkOrderAll, walkOrderAll, List.nil_append] at hkept
  have hleft : ∀ pair ∈ labelsAll (contractAll (·.elided) [source]), pair.1 ∈ source.labels := by
    intro pair hpair
    have hmem := List.mem_map_of_mem (f := Prod.fst) hpair
    rw [hkept] at hmem
    exact (walkOrder_perm source).mem_iff.mp (List.mem_of_mem_filter hmem)
  rw [htree, ← hkept, List.map_map, List.map_map]
  refine List.map_congr_left fun pair hpair => ?_
  simp only [Function.comp_apply, id_absorbAll]
  exact hid pair.1 (hleft pair hpair)

/-- An id stands in the tree exactly if it is that of a kept node. -/
theorem HasSource.mem_ids_iff
    (h : HasSource nodes filled given start finish keepNatives result time source) {id : Value α} :
    id ∈ result.tree.labels.map (·.id) ↔ IsKept nodes keepNatives id := by
  have hdescribes := h.describes
  have helided : ∀ position, isElided keepNatives (nodeIn filled position) =
      isElided keepNatives (nodeIn nodes position) := fun position =>
    isElided_congr (h.others position "callFrame" (by decide) (by decide))
      (h.others position "url" (by decide) (by decide))
  rw [h.ids_eq, List.mem_map]
  constructor
  · rintro ⟨node, hnode, rfl⟩
    obtain ⟨hmem, hkept⟩ := List.mem_filter.mp hnode
    have hlabel := (walkOrder_perm source).mem_iff.mp hmem
    have hlt := hdescribes.lt hlabel
    rw [Bool.not_eq_true', hdescribes.elided_eq_false_iff hlabel, helided] at hkept
    rw [nodeIn_eq_getElem hlt] at hkept
    refine ⟨node.position, nodes[node.position], List.getElem?_eq_getElem hlt, ?_, hkept⟩
    rw [idIn, nodeIn_eq_getElem hlt]
  · rintro ⟨position, entry, hentry, rfl, hkept⟩
    obtain ⟨hlt, rfl⟩ := List.getElem?_eq_some_iff.mp hentry
    obtain ⟨node, hlabel, rfl⟩ := List.mem_map.mp
      (hdescribes.positions.mem_iff.mpr (List.mem_range.mpr hlt))
    rw [← nodeIn_eq_getElem hlt, ← helided, ← hdescribes.elided_eq_false_iff hlabel] at hkept
    refine ⟨node, List.mem_filter.mpr ⟨(walkOrder_perm source).mem_iff.mpr hlabel, ?_⟩, ?_⟩
    · simp [hkept]
    · rw [idIn, nodeIn_eq_getElem hlt]

/-! ## 3. Keys -/

variable {table : NodeTable α}

/-- The keys of the tree are those of the nodes that are not dropped. -/
theorem HasSource.keys_eq
    (h : HasSource nodes filled given start finish keepNatives result time source)
    (hi : table.Indexed) (htable : table.nodes = nodes) :
    result.tree.labels.map (fun call => call.id.key) =
      (source.walkOrder.filter fun node => !node.elided).map
        fun node => .ok (keyIn nodes node.position) := by
  subst htable
  have hkeys := congrArg (List.map Value.key) h.ids_eq
  rw [List.map_map, List.map_map] at hkeys
  refine hkeys.trans (List.map_congr_left fun node hnode => ?_)
  have hlabel := (walkOrder_perm source).mem_iff.mp (List.mem_of_mem_filter hnode)
  exact hi.key _ (h.describes.lt hlabel)

/-- No id stands twice in the tree. -/
theorem HasSource.nodup_keys
    (h : HasSource nodes filled given start finish keepNatives result time source)
    (hi : table.Indexed) (htable : table.nodes = nodes) :
    (result.tree.labels.map fun call => call.id.key).Nodup := by
  have hnd : (source.labels.map (·.position)).Nodup :=
    h.describes.positions.nodup_iff.mpr List.nodup_range
  have hmem : ∀ node ∈ source.walkOrder.filter (fun node => !node.elided), node ∈ source.labels :=
    fun node hnode => (walkOrder_perm source).mem_iff.mp (List.mem_of_mem_filter hnode)
  rw [h.keys_eq hi htable]
  refine .map_on (fun node hnode other hother heq => ?_)
    (.filter _ ((walkOrder_perm source).nodup_iff.mpr hnd.of_map))
  subst htable
  exact List.inj_on_of_nodup_map hnd (hmem node hnode) (hmem other hother)
    (hi.inj _ (h.describes.lt (hmem node hnode)) _ (h.describes.lt (hmem other hother))
      (Except.ok.inj heq))

/-- Every id of the tree can be looked up. -/
theorem HasSource.exists_key
    (h : HasSource nodes filled given start finish keepNatives result time source)
    (hi : table.Indexed) (htable : table.nodes = nodes) :
    ∀ call ∈ result.tree.labels, ∃ key, call.id.key = .ok key := by
  intro call hcall
  have hmem := List.mem_map_of_mem (f := fun call : Call α => call.id.key) hcall
  rw [h.keys_eq hi htable] at hmem
  obtain ⟨node, -, hkey⟩ := List.mem_map.mp hmem
  exact ⟨_, hkey.symm⟩

/-! ## 4. Accepted lists -/

/-- **The ids of the tree of an accepted list are those of its kept nodes.** -/
theorem mem_ids_iff_isKept
    (h : (ofNodes (nodes.map .obj) given start finish keepNatives).2 = .ok result) {id : Value α} :
    id ∈ result.tree.labels.map (·.id) ↔ IsKept nodes keepNatives id := by
  obtain ⟨_, _, source, -, hsource⟩ := exists_source h
  exact hsource.mem_ids_iff

/-- **No id stands twice in the tree of an accepted list, and every id can be looked up.** -/
theorem keys_of_ofNodes
    (h : (ofNodes (nodes.map .obj) given start finish keepNatives).2 = .ok result) :
    (result.tree.labels.map fun call => call.id.key).Nodup ∧
      ∀ call ∈ result.tree.labels, ∃ key, call.id.key = .ok key := by
  obtain ⟨_, _, source, -, hsource⟩ := exists_source h
  obtain ⟨-, table, htable, -⟩ := ofNodes_eq_ok_iff.mp h
  obtain ⟨hnodes, hi⟩ := indexed_ofNodes htable
  exact ⟨hsource.nodup_keys hi hnodes, hsource.exists_key hi hnodes⟩

/-- There are as many samples as were given, if any were. -/
theorem samples_of_ofNodes
    (h : (ofNodes (nodes.map .obj) (.ofOption (samples.map .list)) start finish keepNatives).2 =
      .ok result) : result.samples.map List.length = samples.map List.length := by
  obtain ⟨_, _, source, -, hsource⟩ := exists_source h
  have hrel := redirected_of_redirectSamples hsource.describes hsource.samples
  generalize result.samples = redirected at hrel
  cases hrel with
  | none => rfl
  | some hredirected => exact congrArg some hredirected.length_eq.symm

end Contraction
end SampledProfile
