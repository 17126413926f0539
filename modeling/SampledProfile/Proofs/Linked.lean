/-
# Profiles by parents

A profile of the current format may say by lists of children or by parents how its nodes are linked.
Where the lists make a tree and siblings are listed as they stand, the profile that says the same by
parents is loaded as the same model (`Model.load_linked`), wherever a parent stands in the list, and with
the same fault if it is not loaded.

A flat profile is read without looking at its nodes (`Recording.ofFlat`), so that all that counts is what
the nodes contract to.
-/
import SampledProfile.Numeric.Number
import SampledProfile.Proofs.Contraction.Parents
import SampledProfile.Proofs.Loaded
import SampledProfile.Proofs.Recording.Heads

namespace SampledProfile

open Outcome

variable {α : Type} [Scalar α]

namespace Recording

/-- The recording of a profile of the current format with such nodes. -/
def ofFlat (profile : Fields α) (nodes : List (Fields α)) : Except Fault (Recording α) := do
  let start := profile.getD "startTime" (.int 0)
  let timestamps ← accumulate start (profile.get "timeDeltas")
  let samples ← itemsIfGiven (profile.get "samples")
  let startMs ← start.div (.int 1000)
  let finishMs ← (profile.getD "endTime" (.int 0)).div (.int 1000)
  return ⟨nodes, .num startMs, .num finishMs, timesIfAny timestamps, samples, profile.get "lines"⟩

theorem ofFlat_of_same {profile other : Fields α} (h : profile.Same ["nodes"] other)
    (nodes : List (Fields α)) : ofFlat other nodes = ofFlat profile nodes := by
  have hget : ∀ name, name ∉ ["nodes"] → other.get name = profile.get name := fun _ => h.get
  have hgetD : ∀ name, name ∉ ["nodes"] → ∀ value, other.getD name value = profile.getD name value :=
    fun _ => h.getD
  simp (disch := decide) only [ofFlat, hget, hgetD]

theorem ofFlat_set (profile : Fields α) (value : Value α) (nodes : List (Fields α)) :
    ofFlat (profile.set "nodes" value) nodes = ofFlat profile nodes :=
  ofFlat_of_same ((Fields.Same.refl _ _).set_right List.mem_cons_self value) nodes

/-- A flat profile is read with its nodes as they are. -/
theorem ofProfile_eq_ofFlat {profile : Fields α} {nodes : List (Fields α)}
    (hhead : (profile.get "head").truthy = false)
    (hnodes : profile.get "nodes" = .list (nodes.map .obj)) (hne : nodes ≠ [])
    (hlists : ∀ node ∈ nodes, Fields.get node "children" = .null ∨
      ∃ ids, Fields.get node "children" = .list ids) :
    ofProfile (.obj profile) = ofFlat profile nodes := by
  have htruthy : (profile.get "nodes").truthy = true := by simpa [hnodes, Value.truthy] using hne
  have hitems : (profile.get "nodes").items = .ok (nodes.map .obj) := by rw [hnodes]; rfl
  rw [ofProfile_of_nodes hhead htruthy]
  simp only [ofCurrent, ofFlat, hitems, ok_bind, mapM_copyNode_obj hlists]

end Recording

namespace Model

open Recording NodeTable Contraction

/-- **The profile that names parents is loaded as the one that lists children.** -/
theorem load_linked {profile : Fields α} {nodes others : List (Fields α)}
    (hhead : (profile.get "head").truthy = false)
    (hnodes : profile.get "nodes" = .list (nodes.map .obj)) (h : ListsInOrder nodes)
    (h' : ParentsOf nodes others) :
    (∀ keepNatives, load (.obj (profile.set "nodes" (.list (others.map .obj)))) keepNatives =
      load (.obj profile) keepNatives) ∧
    ∃ table, NodeTable.ofNodes (others.map .obj) = .ok table ∧ ∀ samples,
      (table.fillHits samples).1.fillChildren.2 = .ok () ∧
      ∀ position < nodes.length,
        listed (nodeIn (table.fillHits samples).1.fillChildren.1.nodes position) =
          linked others position ∧
        (linked others position).Pairwise (fun id later => ¬ id.SameName later) ∧
        List.Forall₂ Value.SameName (listed (nodeIn nodes position)) (linked others position) := by
  have hne : nodes ≠ [] := List.length_pos_iff.mp (length_pos_of_given h.tree.given)
  have hne' : others ≠ [] := by
    rw [← List.length_pos_iff, ← h'.same.length_eq, List.length_pos_iff]
    exact hne
  constructor
  · intro keepNatives
    have hread : ofProfile (.obj profile) = ofFlat profile nodes := by
      refine ofProfile_eq_ofFlat hhead hnodes hne fun node hnode => ?_
      obtain ⟨position, hp, rfl⟩ := List.getElem_of_mem hnode
      rw [← nodeIn_eq_getElem hp]
      exact h.lists position hp
    have hread' : ofProfile (.obj (profile.set "nodes" (.list (others.map .obj)))) =
        ofFlat profile others := by
      rw [← ofFlat_set profile (.list (others.map .obj))]
      refine ofProfile_eq_ofFlat ?_ ?_ hne' fun node hnode => .inl ?_
      · rwa [Fields.get, Fields.get?_set_of_ne _ _ (by decide), ← Fields.get]
      · rw [Fields.get, Fields.get?_set_self, Option.getD_some]
      · rw [Fields.get, h'.listless node hnode]
        rfl
    rw [load, load, hread, hread']
    simp only [ofFlat, bind_assoc, pure_bind]
    refine bind_congr fun times => bind_congr fun samples => bind_congr fun start =>
      bind_congr fun finish => ?_
    exact @ofRecording_congr α _ ⟨nodes, .num start, .num finish, timesIfAny times, samples,
      profile.get "lines"⟩ _ _ (ofNodes_parents h h' _ _ _ _)
  · obtain ⟨table, htable⟩ := exists_ofNodes_iff.mpr h.own
    obtain ⟨other, hother, hagree⟩ := (alike_ofNodes (by decide) h'.same).exists_ok htable
    obtain ⟨rfl, hi⟩ := indexed_ofNodes htable
    obtain ⟨rfl, -⟩ := indexed_ofNodes hother
    exact ⟨other, hother, fun samples =>
      ⟨fillChildren_eq_ok_of_parents hi h h' hagree samples, fun position hp =>
        listed_of_parents hi h h' hagree samples hp⟩⟩

/-- Four nodes with lists of children; the second is a child of the third. -/
def listingNodes : List (Fields Number) := [
  [("id", .int 1), ("children", .list [.int 3, .int 4]), ("functionName", .str "(root)")],
  [("id", .int 2), ("functionName", .str "f")],
  [("id", .int 3), ("children", .list [.int 2]), ("functionName", .str "g")],
  [("id", .int 4), ("children", .list []), ("functionName", .str "h")]]

/-- The same nodes with parents. -/
def namingNodes : List (Fields Number) := [
  [("id", .int 1), ("functionName", .str "(root)")],
  [("id", .int 2), ("functionName", .str "f"), ("parent", .int 3)],
  [("id", .int 3), ("functionName", .str "g"), ("parent", .int 1)],
  [("id", .int 4), ("functionName", .str "h"), ("parent", .int 1)]]

def listingProfile : Fields Number := [
  ("nodes", .list (listingNodes.map .obj)),
  ("samples", .list [.int 2, .int 4, .int 2]),
  ("endTime", .int 1000)]

theorem listsInOrder_listingNodes : ListsInOrder listingNodes := by
  have hown : OwnIds listingNodes := exists_ofNodes_iff.mp (exists_of_isOk (by decide +kernel))
  have hstep : ∀ above < listingNodes.length, ∀ position < listingNodes.length,
      (∃ id ∈ listed (nodeIn listingNodes above), id.SameName (idIn listingNodes position)) →
        above < listingNodes.length ∧ position < listingNodes.length ∧
          ∃ id ∈ listed (nodeIn listingNodes above), id.SameName (idIn listingNodes position) :=
    fun _ habove _ hp hlisted => ⟨habove, hp, hlisted⟩
  have hthird := hstep 0 (by decide) 2 (by decide) (by decide +kernel)
  have hsecond := hstep 2 (by decide) 1 (by decide) (by decide +kernel)
  have hfourth := hstep 0 (by decide) 3 (by decide) (by decide +kernel)
  refine ⟨hown, fun position hp => ?_, ?_, ⟨rfl, ?_, fun position hp => ?_⟩, ?_⟩
  · match position, hp with
    | 0, _ => exact .inr ⟨_, rfl⟩
    | 1, _ => exact .inl rfl
    | 2, _ => exact .inr ⟨_, rfl⟩
    | 3, _ => exact .inr ⟨_, rfl⟩
  · unfold Known
    decide +kernel
  · decide +kernel
  · match position, hp with
    | 0, _ => exact .refl
    | 1, _ => exact .tail (.single hthird) hsecond
    | 2, _ => exact .single hthird
    | 3, _ => exact .single hfourth
  · decide +kernel

theorem parentsOf_namingNodes : ParentsOf listingNodes namingNodes := by
  refine ⟨?_, by decide +kernel, by decide +kernel⟩
  simp only [listingNodes, namingNodes, List.forall₂_cons, List.forall₂_nil_left_iff, and_true]
  refine ⟨?_, ?_, ?_, ?_⟩
  all_goals
    intro name hname
    simp only [linkFields, List.mem_cons, List.not_mem_nil, or_false, not_or] at hname
    simp [Fields.get?, Ne.symm hname.1, Ne.symm hname.2]

theorem load_linked_listingProfile :
    ListsInOrder listingNodes ∧ ParentsOf listingNodes namingNodes ∧
      ∃ model, load (.obj listingProfile) false = .ok model ∧
        load (.obj (listingProfile.set "nodes" (.list (namingNodes.map .obj)))) false =
          .ok model := by
  have hnodes : listingProfile.get "nodes" = .list (listingNodes.map .obj) := rfl
  obtain ⟨heq, -⟩ := load_linked rfl hnodes listsInOrder_listingNodes parentsOf_namingNodes
  have hloads : (load (.obj listingProfile) false).isOk = true := by decide +kernel
  obtain ⟨model, hload⟩ := exists_of_isOk hloads
  exact ⟨listsInOrder_listingNodes, parentsOf_namingNodes, model, hload, (heq false).trans hload⟩

end Model
end SampledProfile
