/-
# Profiles with other hits

A profile may report hits at its nodes.  `Recording.reportHits` is the profile in which every node reports
what is given for its id, be the nodes nested or flat, whatever they reported before.

* `Recording.alike_flatten`: nested nodes are flattened to nodes that differ in their hits alone;
* **`Recording.alike_ofProfile`: so does the whole recording, in either format, or neither profile can
  be read**;
* `Recording.exists_firstNode`: the first node of a recording reports what the first node of the
  profile does (`Recording.firstNode`).
-/
import SampledProfile.Proofs.NodeTable.Agree
import SampledProfile.Proofs.Recording.Heads
import SampledProfile.Proofs.Renaming.Recordings

namespace SampledProfile
namespace Recording

open Outcome

variable {α : Type}

/-! ## 1. Reporting other hits -/

section Definitions

variable (hits : Value α → Value α)

/-- The node with the hits that are given for its id. -/
def reportNode (node : Fields α) : Fields α := node.set "hitCount" (hits (node.get "id"))

mutual

/-- A nested node with other hits, and all below it. -/
def reportNested : Value α → Value α
  | .obj node => .obj (reportNode hits (reportBelow node))
  | v => v

/-- The fields of a node in which those nested in it have other hits. -/
def reportBelow : List (String × Value α) → List (String × Value α)
  | [] => []
  | (name, v) :: rest =>
    (name,
      if name = "children" then
        match v with
        | .list children => .list (reportAll children)
        | v => v
      else v) :: reportBelow rest

/-- Nested nodes with other hits. -/
def reportAll : List (Value α) → List (Value α)
  | [] => []
  | node :: rest => reportNested node :: reportAll rest

end

/-- A node of a flat list with other hits. -/
def reportFlat : Value α → Value α
  | .obj node => .obj (reportNode hits node)
  | v => v

variable [Scalar α]

/-- The value of a field of a profile in which nodes have other hits. -/
def reportPart (name : String) (v : Value α) : Value α :=
  if name = "head" then if v.truthy then reportNested hits v else v
  else if name = "nodes" then v.mapItems (reportFlat hits)
  else v

/-- **The profile in which all nodes have other hits.** -/
def reportHits (profile : Fields α) : Fields α := profile.mapValues (reportPart hits)

/-- The first node of a profile, in either format. -/
def firstNode (profile : Fields α) : Value α :=
  if (profile.get "head").truthy then profile.get "head"
  else
    match profile.get "nodes" with
    | .list (first :: _) => first
    | _ => .null

end Definitions

/-- The node has the hits that are given for its id, and is otherwise the same. -/
structure Reports (hits : Value α → Value α) (node other : Fields α) : Prop where
  others : node.Same ["hitCount"] other
  hits : other.get? "hitCount" = some (hits (node.get "id"))

variable {hits : Value α → Value α}

theorem reports_reportNode (node : Fields α) : Reports hits node (reportNode hits node) :=
  ⟨(Fields.Same.refl _ _).set_right List.mem_cons_self _, Fields.get?_set_self _ _ _⟩

/-- Any other field can be set in both. -/
theorem Reports.set {node other : Fields α} (h : Reports hits node other) {name : String}
    (hhits : name ≠ "hitCount") (hid : name ≠ "id") (value : Value α) :
    Reports hits (node.set name value) (other.set name value) := by
  refine ⟨h.others.set name value, ?_⟩
  rw [Fields.get?_set_of_ne _ _ hhits, h.hits, Fields.get, Fields.get, Fields.get?_set_of_ne _ _ hid]

/-! ## 2. Nested nodes -/

theorem reportAll_eq_map (nodes : List (Value α)) :
    reportAll hits nodes = nodes.map (reportNested hits) := by
  induction nodes with
  | nil => rfl
  | cons node rest ih => rw [reportAll, ih, List.map_cons]

theorem reportBelow_cons (name : String) (v : Value α) (rest : Fields α) :
    reportBelow hits ((name, v) :: rest) =
      (name, if name = "children" then v.mapItems (reportNested hits) else v) ::
        reportBelow hits rest := by
  cases v with
  | list children => rw [reportBelow, reportAll_eq_map]; rfl
  | _ => rfl

/-- What is nested in a node is all that changes below it. -/
theorem reportBelow_eq_mapValues (node : Fields α) :
    reportBelow hits node = node.mapValues fun name v =>
      if name = "children" then v.mapItems (reportNested hits) else v := by
  induction node with
  | nil => rfl
  | cons field rest ih => exact (reportBelow_cons field.1 field.2 rest).trans (congrArg _ ih)

theorem get?_reportBelow (node : Fields α) {name : String} (h : name ≠ "children") :
    Fields.get? (reportBelow hits node) name = node.get? name := by
  rw [reportBelow_eq_mapValues, Fields.get?_mapValues]
  simp [h]

theorem get_children_reportNode (node : Fields α) :
    Fields.get (reportNode hits (reportBelow hits node)) "children" =
      (node.get "children").mapItems (reportNested hits) := by
  rw [Fields.get, reportNode, Fields.get?_set_of_ne _ _ (by decide), ← Fields.get,
    reportBelow_eq_mapValues, Fields.get_mapValues fun name => by split <;> rfl]
  rfl

theorem get_id_reportBelow (node : Fields α) :
    Fields.get (reportBelow hits node) "id" = node.get "id" := by
  rw [Fields.get, get?_reportBelow node (by decide), Fields.get]

/-- A nested node that has its ids of children set reports its hits, and is otherwise the same. -/
theorem reports_nested (node : Fields α) (ids : List (Value α)) :
    Reports hits (node.set "children" (.list ids))
      (Fields.set (reportNode hits (reportBelow hits node)) "children" (.list ids)) := by
  have hbelow : Fields.Same ["children"] node (reportBelow hits node) := fun name hname =>
    get?_reportBelow node fun heq => hname (heq ▸ List.mem_cons_self)
  have hnode : Fields.Same ["children", "hitCount"] node
      (reportNode hits (reportBelow hits node)) :=
    (hbelow.mono (by simp)).set_right (by simp) _
  constructor
  · intro name hname
    by_cases heq : "children" = name
    · rw [← heq, Fields.get?_set_self, Fields.get?_set_self]
    · rw [Fields.get?_set_of_ne _ _ heq, Fields.get?_set_of_ne _ _ heq]
      refine hnode name ?_
      simp only [List.mem_cons, List.not_mem_nil, or_false, not_or] at hname ⊢
      exact ⟨fun h => heq h.symm, hname⟩
  · rw [Fields.get?_set_of_ne _ _ (by decide), reportNode, Fields.get?_set_self,
      get_id_reportBelow, Fields.get, Fields.get, Fields.get?_set_of_ne _ _ (by decide)]

theorem idOf_reportNested (v : Value α) : idOf (reportNested hits v) = idOf v := by
  cases v with
  | obj node =>
    rw [reportNested, idOf, idOf, reportNode, Fields.require,
      Fields.get?_set_of_ne _ _ (by decide), get?_reportBelow node (by decide), Fields.require]
  | _ =>
    rw [reportNested]
    simp

theorem reportNested_text (text : String) :
    reportNested hits (.str text) = .str text := by
  rw [reportNested]
  simp

variable [Scalar α]

theorem childIds_reportNode (node : Fields α) :
    childIds (reportNode hits (reportBelow hits node)) = childIds node := by
  have hitems : (((node.get "children").mapItems (reportNested hits)).orElse (.list [])).items =
      ((node.get "children").orElse (.list [])).items.map (List.map (reportNested hits)) := by
    unfold Value.orElse
    rw [Value.truthy_mapItems]
    split
    · exact Value.items_mapItems reportNested_text _
    · rfl
  rw [childIds, get_children_reportNode, hitems, childIds]
  cases ((node.get "children").orElse (.list [])).items with
  | error fault => rfl
  | ok nodes =>
    simp only [Except.map, ok_bind]
    rw [List.mapM_map]
    simp only [Function.comp_def, idOf_reportNested]

/-- What is below a node does not depend on any other of its fields. -/
theorem flattenBelow_set (node : Fields α) {name : String} (h : name ≠ "children")
    (value : Value α) : flattenBelow (node.set name value) = flattenBelow node := by
  induction node with
  | nil =>
    rw [Fields.set, Renaming.flattenBelow_cons h]
  | cons field rest ih =>
    obtain ⟨other, old⟩ := field
    rw [Fields.set]
    split
    · rename_i heq
      subst heq
      rw [Renaming.flattenBelow_cons h, Renaming.flattenBelow_cons h]
    · by_cases hother : other = "children"
      · subst hother
        cases old <;> simp [flattenBelow]
      · rw [Renaming.flattenBelow_cons hother, Renaming.flattenBelow_cons hother, ih]

mutual

/-- **Nested nodes with other hits are flattened to nodes with other hits.** -/
theorem alike_flatten : ∀ v : Value α,
    Alike (List.Forall₂ (Reports hits)) (flatten v) (flatten (reportNested hits v))
  | .obj node => by
    rw [reportNested, flatten, flatten, childIds_reportNode, reportNode,
      flattenBelow_set _ (by decide)]
    refine .bind_same fun ids _ => (alike_flattenBelow node).bind fun below below' hbelow => ?_
    exact .ok (.cons (reports_nested node ids) hbelow)
  | .null | .bool _ | .num _ | .str _ | .list _ => by
    rw [reportNested]
    · exact .error _
    · simp

theorem alike_flattenBelow : ∀ node : List (String × Value α),
    Alike (List.Forall₂ (Reports hits)) (flattenBelow node) (flattenBelow (reportBelow hits node))
  | [] => .ok .nil
  | (name, v) :: rest => by
    by_cases hname : name = "children"
    · subst hname
      cases v with
      | list children => exact alike_flattenAll children
      | _ => exact .ok .nil
    · rw [reportBelow_cons, Renaming.flattenBelow_cons hname, Renaming.flattenBelow_cons hname]
      exact alike_flattenBelow rest

theorem alike_flattenAll : ∀ nodes : List (Value α),
    Alike (List.Forall₂ (Reports hits)) (flattenAll nodes) (flattenAll (reportAll hits nodes))
  | [] => .ok .nil
  | node :: rest => by
    rw [reportAll, flattenAll, flattenAll]
    refine (alike_flatten node).bind fun first first' hfirst => ?_
    exact (alike_flattenAll rest).bind fun others others' hothers =>
      .ok (List.rel_append hfirst hothers)

end

/-! ## 3. Both formats -/

theorem alike_copyNode (v : Value α) :
    Alike (Reports hits) (copyNode v) (copyNode (reportFlat hits v)) := by
  cases v with
  | obj node =>
    have hreports : Reports hits node (reportNode hits node) := reports_reportNode node
    simp only [copyNode, reportFlat, asObject, ok_bind,
      hreports.others.get (show "children" ∉ ["hitCount"] by decide)]
    split
    · exact .ok hreports
    · exact .bind_same fun ids _ => .ok (hreports.set (by decide) (by decide) _)
  | _ => exact .error _

/-- The recordings are the same but for the hits that nodes report. -/
structure SameButHits (hits : Value α → Value α) (recording other : Recording α) : Prop where
  nodes : List.Forall₂ (Reports hits) recording.nodes other.nodes
  others : other = { recording with nodes := other.nodes }

theorem get_reportHits (profile : Fields α) (name : String) :
    (reportHits hits profile).get name = reportPart hits name (profile.get name) := by
  refine Fields.get_mapValues (fun name => ?_) profile name
  unfold reportPart
  split
  · rfl
  · split <;> rfl

theorem reportPart_of_ne {name : String} (hhead : name ≠ "head") (hnodes : name ≠ "nodes")
    (v : Value α) : reportPart hits name v = v := by
  rw [reportPart, if_neg hhead, if_neg hnodes]

theorem get_reportHits_of_ne (profile : Fields α) {name : String} (hhead : name ≠ "head")
    (hnodes : name ≠ "nodes") : (reportHits hits profile).get name = profile.get name := by
  rw [get_reportHits, reportPart_of_ne hhead hnodes]

theorem getD_reportHits_of_ne (profile : Fields α) {name : String} (hhead : name ≠ "head")
    (hnodes : name ≠ "nodes") (other : Value α) :
    (reportHits hits profile).getD name other = profile.getD name other :=
  Fields.getD_mapValues (reportPart_of_ne hhead hnodes) other

theorem truthy_reportNested {v : Value α} (h : v.truthy = true) :
    (reportNested hits v).truthy = true := by
  cases v with
  | obj node =>
    rw [reportNested, reportNode]
    cases reportBelow hits node with
    | nil => rfl
    | cons field rest =>
      obtain ⟨name, value⟩ := field
      rw [Fields.set]
      split <;> rfl
  | _ =>
    rw [reportNested]
    · exact h
    · simp

theorem get_head_reportHits (profile : Fields α) : (reportHits hits profile).get "head" =
    if (profile.get "head").truthy then reportNested hits (profile.get "head")
    else profile.get "head" := by
  rw [get_reportHits]
  rfl

theorem get_nodes_reportHits (profile : Fields α) :
    (reportHits hits profile).get "nodes" = (profile.get "nodes").mapItems (reportFlat hits) := by
  rw [get_reportHits]
  rfl

theorem formatOf_reportHits (profile : Fields α) :
    formatOf (.obj (reportHits hits profile)) = formatOf (.obj profile) := by
  have hhead : ((reportHits hits profile).get "head").truthy = (profile.get "head").truthy := by
    rw [get_head_reportHits]
    split
    · rename_i htruthy
      rw [truthy_reportNested htruthy, htruthy]
    · rfl
  rw [formatOf, hhead, get_nodes_reportHits, Value.truthy_mapItems, formatOf]

theorem alike_ofLegacy {profile : Fields α} (hhead : (profile.get "head").truthy = true) :
    Alike (SameButHits hits) (ofLegacy profile) (ofLegacy (reportHits hits profile)) := by
  unfold ofLegacy
  rw [get_head_reportHits, if_pos hhead]
  simp (disch := decide) only [get_reportHits_of_ne, getD_reportHits_of_ne]
  split
  all_goals
    refine .bind_same fun times _ => .bind_same fun samples _ => ?_
    refine (alike_flatten _).bind fun nodes nodes' hnodes => ?_
    exact .bind_same fun start _ => .bind_same fun finish _ => .ok ⟨hnodes, rfl⟩

theorem alike_ofCurrent (profile : Fields α) :
    Alike (SameButHits hits) (ofCurrent profile) (ofCurrent (reportHits hits profile)) := by
  have hitems : ((reportHits hits profile).get "nodes").items =
      (profile.get "nodes").items.map (List.map (reportFlat hits)) := by
    rw [get_nodes_reportHits]
    exact Value.items_mapItems (fun _ => rfl) _
  unfold ofCurrent
  rw [hitems]
  simp (disch := decide) only [get_reportHits_of_ne, getD_reportHits_of_ne]
  refine .bind_same fun times _ => .bind_same fun samples _ => ?_
  cases (profile.get "nodes").items with
  | error fault => exact .error fault
  | ok nodes =>
    simp only [Except.map, ok_bind]
    have hflat : List.Forall₂ (fun v v' => v' = reportFlat hits v) nodes
        (nodes.map (reportFlat hits)) := by
      rw [List.forall₂_map_right_iff]
      exact List.forall₂_same.mpr fun _ _ => rfl
    refine (Alike.mapM hflat fun v v' heq => heq ▸ alike_copyNode v).bind fun flat flat' hnodes => ?_
    exact .bind_same fun start _ => .bind_same fun finish _ => .ok ⟨hnodes, rfl⟩

/-- **A profile with other hits is recorded as it was, with other hits.** -/
theorem alike_ofProfile (profile : Fields α) :
    Alike (SameButHits hits) (ofProfile (.obj profile))
      (ofProfile (.obj (reportHits hits profile))) := by
  unfold ofProfile
  rw [formatOf_reportHits]
  refine .bind_same fun format hformat => ?_
  cases format with
  | legacy =>
    refine alike_ofLegacy ?_
    by_contra hhead
    rw [formatOf, if_neg hhead] at hformat
    split at hformat <;> cases hformat
  | current => exact alike_ofCurrent profile

/-! ## 4. The first node -/

/-- Only objects can be copied. -/
theorem same_of_copyNode {v : Value α} {copy : Fields α} (h : copyNode v = .ok copy) :
    ∃ node : Fields α, v = .obj node ∧ node.Same ["children"] copy := by
  cases v with
  | obj node =>
    simp only [copyNode, asObject, ok_bind] at h
    split at h
    · exact ⟨node, rfl, pure_eq_ok.mp h ▸ .refl _ _⟩
    · obtain ⟨ids, -, h⟩ := bind_eq_ok.mp h
      exact ⟨node, rfl, pure_eq_ok.mp h ▸ (Fields.Same.refl _ _).set_right List.mem_cons_self _⟩
  | _ => cases h

theorem exists_first_of_flatten {head : Value α} {nodes : List (Fields α)}
    (h : flatten head = .ok nodes) : ∃ (node first : Fields α) (rest : List (Fields α)),
      head = .obj node ∧ nodes = first :: rest ∧ node.Same ["children"] first := by
  cases head with
  | obj node =>
    rw [flatten] at h
    obtain ⟨ids, -, h⟩ := bind_eq_ok.mp h
    obtain ⟨below, -, h⟩ := bind_eq_ok.mp h
    exact ⟨node, _, below, rfl, (pure_eq_ok.mp h).symm,
      (Fields.Same.refl _ _).set_right List.mem_cons_self _⟩
  | _ => cases h

/-- Nodes that can be copied are objects of a list. -/
theorem exists_first_of_copies {value : Value α} {items : List (Value α)}
    {nodes : List (Fields α)} (htruthy : value.truthy = true) (hitems : value.items = .ok items)
    (h : items.mapM copyNode = .ok nodes) :
    ∃ (node first : Fields α) (others : List (Value α)) (rest : List (Fields α)),
      value = .list (.obj node :: others) ∧ nodes = first :: rest ∧
        node.Same ["children"] first := by
  have hcopies := mapM_eq_ok_iff.mp h
  cases hcopies with
  | nil =>
    cases value with
    | list items =>
      obtain rfl := Except.ok.inj hitems
      cases htruthy
    | str text =>
      have hempty := Except.ok.inj hitems
      simp only [List.map_eq_nil_iff, String.toList_eq_nil_iff] at hempty
      subst hempty
      cases htruthy
    | obj fields =>
      have hempty := Except.ok.inj hitems
      rw [List.map_eq_nil_iff] at hempty
      subst hempty
      cases htruthy
    | _ => cases hitems
  | @cons v copy others rest hcopy _ =>
    obtain ⟨node, rfl, hsame⟩ := same_of_copyNode hcopy
    cases value with
    | list items =>
      obtain rfl := Except.ok.inj hitems
      exact ⟨node, copy, others, rest, rfl, rfl, hsame⟩
    | str text =>
      have hmem : Value.obj node ∈ text.toList.map fun c => Value.str (String.ofList [c]) := by
        rw [Except.ok.inj hitems]
        exact List.mem_cons_self
      simp at hmem
    | obj fields =>
      have hmem : Value.obj node ∈ fields.map fun field => Value.str field.1 := by
        rw [Except.ok.inj hitems]
        exact List.mem_cons_self
      simp at hmem
    | _ => cases hitems

theorem parts_of_ofLegacy {profile : Fields α} {recording : Recording α}
    (h : ofLegacy profile = .ok recording) :
    flatten (profile.get "head") = .ok recording.nodes ∧
      itemsIfGiven (profile.get "samples") = .ok recording.samples := by
  unfold ofLegacy at h
  dsimp only at h
  split at h
  all_goals
    obtain ⟨times, -, h⟩ := bind_eq_ok.mp h
    obtain ⟨samples, hsamples, h⟩ := bind_eq_ok.mp h
    obtain ⟨nodes, hnodes, h⟩ := bind_eq_ok.mp h
    obtain ⟨start, -, h⟩ := bind_eq_ok.mp h
    obtain ⟨finish, -, h⟩ := bind_eq_ok.mp h
    obtain rfl := pure_eq_ok.mp h
    exact ⟨hnodes, hsamples⟩

theorem parts_of_ofCurrent {profile : Fields α} {recording : Recording α}
    (h : ofCurrent profile = .ok recording) :
    (∃ items, (profile.get "nodes").items = .ok items ∧
      items.mapM copyNode = .ok recording.nodes) ∧
      itemsIfGiven (profile.get "samples") = .ok recording.samples := by
  obtain ⟨times, -, h⟩ := bind_eq_ok.mp h
  obtain ⟨samples, hsamples, h⟩ := bind_eq_ok.mp h
  obtain ⟨items, hitems, h⟩ := bind_eq_ok.mp h
  obtain ⟨nodes, hnodes, h⟩ := bind_eq_ok.mp h
  obtain ⟨start, -, h⟩ := bind_eq_ok.mp h
  obtain ⟨finish, -, h⟩ := bind_eq_ok.mp h
  obtain rfl := pure_eq_ok.mp h
  exact ⟨⟨items, hitems, hnodes⟩, hsamples⟩

/-- The samples of a recording are those of the profile. -/
theorem samples_of_ofProfile {profile : Fields α} {recording : Recording α}
    (h : ofProfile (.obj profile) = .ok recording) :
    itemsIfGiven (profile.get "samples") = .ok recording.samples := by
  obtain ⟨format, -, h⟩ := bind_eq_ok.mp h
  cases format with
  | legacy => exact (parts_of_ofLegacy h).2
  | current => exact (parts_of_ofCurrent h).2

/-- **The first node of a recording is that of the profile, but for its list of children.** -/
theorem exists_firstNode {profile : Fields α} {recording : Recording α}
    (h : ofProfile (.obj profile) = .ok recording) :
    ∃ (node first : Fields α) (rest : List (Fields α)), firstNode profile = .obj node ∧
      recording.nodes = first :: rest ∧ node.Same ["children"] first := by
  obtain ⟨format, hformat, h⟩ := bind_eq_ok.mp h
  unfold firstNode
  by_cases hhead : (profile.get "head").truthy
  · rw [formatOf, if_pos hhead] at hformat
    obtain rfl := Except.ok.inj hformat
    rw [if_pos hhead]
    exact exists_first_of_flatten (parts_of_ofLegacy h).1
  · rw [formatOf, if_neg hhead] at hformat
    rw [if_neg hhead]
    split at hformat
    · rename_i htruthy
      obtain rfl := Except.ok.inj hformat
      obtain ⟨⟨items, hitems, hnodes⟩, -⟩ := parts_of_ofCurrent h
      obtain ⟨node, first, others, rest, hvalue, hfirst, hsame⟩ :=
        exists_first_of_copies htruthy hitems hnodes
      exact ⟨node, first, rest, by rw [hvalue], hfirst, hsame⟩
    · cases hformat

end Recording
end SampledProfile
