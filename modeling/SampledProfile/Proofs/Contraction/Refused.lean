/-
# Which faults a list of nodes can have

Where every field of a node is of its kind (`IsFlatNode`), a list of nodes has one kind of fault only:
it is malformed.  Whatever else fails is arithmetic or the reading of a single node
(`failsAs_ofNodes`).

The reason is that no field is looked up that the checks before have not found: a table that was made
has ids, a table that was filled has lists of children, and the walk goes to positions of the table
only.
-/
import SampledProfile.Proofs.Contraction.Source

namespace SampledProfile

/-- The value can be a name. -/
def Value.CanName {α : Type} [Scalar α] (v : Value α) : Prop := ∃ key, v.key = .ok key

namespace Contraction

open Outcome NodeTable

variable {α : Type} [Scalar α]

/-- A node of which every field is of its kind, as far as it is given. -/
structure IsNode (node : Fields α) : Prop where
  id : (node.get "id").CanName
  parent : (node.get "parent").CanName
  hitCount : HitsOrNot node
  frame : HasFrame node

/-- A node that is not nested in others, and refers to its children by name. -/
structure IsFlatNode (node : Fields α) : Prop extends IsNode node where
  children : node.get "children" = .null ∨
    ∃ ids, node.get "children" = .list ids ∧ ∀ id ∈ ids, id.CanName

theorem IsFlatNode.lists {node : Fields α} (h : IsFlatNode node) :
    node.get "children" = .null ∨ ∃ ids, node.get "children" = .list ids := by
  rcases h.children with hnull | ⟨ids, hids, -⟩
  · exact .inl hnull
  · exact .inr ⟨ids, hids⟩

/-- The children that a node has, listed or found, have names. -/
theorem canName_of_mem_childIds {nodes : List (Fields α)}
    (h : ∀ position < nodes.length, IsFlatNode (nodeIn nodes position)) {position : Nat}
    (hp : position < nodes.length) {id : Value α} (hid : id ∈ childIds nodes position) :
    id.CanName := by
  rw [childIds, List.mem_append] at hid
  rcases hid with hlisted | hlinked
  · rcases (h position hp).children with hnull | ⟨ids, hids, hnames⟩
    · rw [listed_of_null hnull] at hlisted
      cases hlisted
    · rw [listed_of_list hids] at hlisted
      exact hnames id hlisted
  · split at hlinked
    · obtain ⟨node, hnode, rfl⟩ := List.mem_map.mp hlinked
      obtain ⟨other, ho, rfl⟩ :=
        List.getElem_of_mem (List.mem_of_mem_tail (List.mem_of_mem_filter hnode))
      rw [← nodeIn_eq_getElem ho]
      exact (h other ho).id
    · cases hlinked

/-! ## 1. Names -/

section Faults

variable {faulty : Fault → Prop} (hmalformed : ∀ why, faulty (.malformed why))
  {nodes : List (Fields α)} {table : NodeTable α}

include hmalformed

theorem failsAs_malformed {β : Type} (why : Malformed) :
    FailsAs faulty (throw (.malformed why) : Except Fault β) := hmalformed why

theorem failsAs_find {id : Value α} (h : id.CanName) (referrer : String) :
    FailsAs faulty (table.find id referrer) := by
  obtain ⟨key, hkey⟩ := h
  unfold NodeTable.find
  rw [hkey, ok_bind]
  split
  · exact .ok _ _
  · exact failsAs_malformed hmalformed _

/-- What is found are positions of the table. -/
theorem ends_findAll (hi : table.Indexed) {ids : List (Value α)} (h : ∀ id ∈ ids, id.CanName)
    (referrer : String) :
    Ends faulty (fun positions => ∀ position ∈ positions, position < table.nodes.length)
      (table.findAll ids referrer) := by
  refine Ends.mapM fun id hid => ?_
  refine ((failsAs_find hmalformed (h id hid) referrer).and_ok fun position hposition =>
    (hi.find_eq_ok_iff.mp hposition).1).mono fun _ => And.right

/-! ## 2. Tables -/

theorem failsAs_push {node : Fields α} (h : (node.get "id").CanName) (table : NodeTable α) :
    FailsAs faulty (table.push (.obj node)) := by
  obtain ⟨key, hkey⟩ := h
  simp only [push, Value.fields, ok_bind, hkey]
  split
  · exact failsAs_malformed hmalformed _
  · split
    · exact failsAs_malformed hmalformed _
    · exact .ok _ _

theorem failsAs_table (h : ∀ node ∈ nodes, (node.get "id").CanName) :
    FailsAs faulty (NodeTable.ofNodes (nodes.map .obj)) := by
  refine Ends.foldlM (fun table _ node hnode => ?_) trivial
  obtain ⟨fields, hfields, rfl⟩ := List.mem_map.mp hnode
  exact failsAs_push hmalformed (h fields hfields) table

theorem failsAs_countHits : ∀ {samples : List (Value α)} {table : NodeTable α},
    (∀ sample ∈ samples, sample.CanName) → FailsAs faulty (table.countHits samples).2
  | [], _, _ => .ok _ _
  | sample :: rest, table, h => by
    obtain ⟨hsample, hrest⟩ := List.forall_mem_cons.mp h
    have hfind : FailsAs faulty (table.find sample "samples") :=
      failsAs_find hmalformed hsample "samples"
    unfold countHits
    cases hfound : table.find sample "samples" with
    | ok position => exact failsAs_countHits hrest
    | error fault =>
      rw [hfound] at hfind
      exact hfind

/-- Hits can be had, or there are none. -/
theorem failsAs_fillHits (hne : table.nodes ≠ []) {samples : Option (List (Value α))}
    (h : ∀ ids, samples = some ids → ∀ id ∈ ids, id.CanName) :
    FailsAs faulty (table.fillHits (.ofOption (samples.map .list))).2 := by
  unfold fillHits
  cases hnodes : table.nodes with
  | nil => exact absurd hnodes hne
  | cons first rest =>
    dsimp only
    split
    · exact .ok _ _
    · cases samples with
      | none => exact failsAs_malformed hmalformed _
      | some ids => exact failsAs_countHits hmalformed (h ids rfl)

theorem failsAs_link (hi : table.Indexed)
    (hlists : ∀ position < table.nodes.length, ListsOrNot table.nodes position) {position : Nat}
    (hp : position < table.nodes.length)
    (hparent : ((nodeIn table.nodes position).get "parent").CanName) :
    FailsAs faulty (table.link position) := by
  simp only [link, nodeAt_eq, hi.require_id hp, ok_bind]
  split
  · exact failsAs_malformed hmalformed _
  · rename_i parent hfield
    rw [Fields.get, hfield, Option.getD_some] at hparent
    refine ((failsAs_find hmalformed hparent _).and_ok fun above habove =>
      (hi.find_eq_ok_iff.mp habove).1).bind fun above hfound => ?_
    obtain ⟨-, habove⟩ := hfound
    rcases hlists above habove with hnull | ⟨ids, hids⟩
    · rw [hnull]
      exact trivial
    · rw [hids]
      exact trivial

theorem failsAs_linkAll : ∀ {positions : List Nat} {table : NodeTable α}, table.Indexed →
    (∀ position < table.nodes.length, ListsOrNot table.nodes position) →
    (∀ position < table.nodes.length, ((nodeIn table.nodes position).get "parent").CanName) →
    (∀ position ∈ positions, position < table.nodes.length) →
      FailsAs faulty (table.linkAll positions).2
  | [], _, _, _, _, _ => .ok _ _
  | position :: rest, table, hi, hlists, hparents, hlt => by
    obtain ⟨hp, hrest⟩ := List.forall_mem_cons.mp hlt
    have hlink := failsAs_link hmalformed hi hlists hp (hparents position hp)
    unfold linkAll
    cases hnext : table.link position with
    | error fault =>
      rw [hnext] at hlink
      exact hlink
    | ok next =>
      have hfills := fills_link hi hp hnext
      refine failsAs_linkAll (hfills.indexed (by decide) hi) (fun other ho => ?_)
        (fun other ho => ?_) fun other ho => ?_
      · rw [hfills.length] at ho
        exact (hlists other ho).link hi hp hnext
      · rw [hfills.length] at ho
        rw [hfills.get_eq other (by decide)]
        exact hparents other ho
      · rw [hfills.length]
        exact hrest other ho

/-- Children can be had, or what should name them does not. -/
theorem failsAs_fillChildren (hi : table.Indexed) (hne : table.nodes ≠ [])
    (hlists : ∀ position < table.nodes.length, ListsOrNot table.nodes position)
    (hparents : ∀ position < table.nodes.length,
      ((nodeIn table.nodes position).get "parent").CanName) :
    FailsAs faulty table.fillChildren.2 := by
  cases hnull : ((nodeIn table.nodes 0).get "children").isNull with
  | false =>
    rw [fillChildren_of_given hne hnull]
    exact .ok _ _
  | true =>
    have hset := fills_set table 0 "children" (.list [])
    rw [fillChildren_of_null hne hnull]
    refine failsAs_linkAll hmalformed (hset.indexed (by decide) hi) (fun other ho => ?_)
      (fun other ho => ?_) fun other ho => ?_
    · exact listsOrNot_set_first hlists (List.length_pos_of_ne_nil hne) (hset.length ▸ ho)
    · rw [hset.get_eq other (by decide)]
      exact hparents other (hset.length ▸ ho)
    · rw [List.mem_range'_1] at ho
      rw [hset.length]
      omega

/-! ## 3. The walk -/

section Walk

variable {time : α} {keepNatives : Bool}

/-- The children that a node lists are nodes of the table. -/
theorem ends_childPositions (hi : table.Indexed) {position : Nat}
    (hlists : ListsOrNot table.nodes position)
    (hids : ∀ id ∈ listed (nodeIn table.nodes position), id.CanName) (id : Value α) :
    Ends faulty (fun positions => ∀ position ∈ positions, position < table.nodes.length)
      (childPositions table (nodeIn table.nodes position) id) := by
  unfold childPositions
  rcases hlists with hnull | ⟨ids, hlist⟩
  · rw [hnull]
    have hnone : ∀ id ∈ ([] : List (Value α)), id.CanName := by simp
    exact ends_findAll hmalformed hi hnone (NodeTable.referrer id)
  · rw [listed_of_list hlist] at hids
    have hitems : ((Value.list ids).orElse (.list [])).items = .ok ids := by
      cases ids with
      | nil => rfl
      | cons first rest => rfl
    rw [hlist, hitems, ok_bind]
    exact ends_findAll hmalformed hi hids _

/-- A node is met again, or it is read. -/
theorem ends_meet {good : SourceNode α → Prop} {trail : Trail α} {position : Nat}
    (hread : Ends faulty good (read table time keepNatives position)) :
    Ends faulty good (meet table time keepNatives trail position) := by
  unfold meet
  unfold read at hread
  dsimp only at hread ⊢
  cases hkey : ((table.nodeAt position).get "id").key with
  | error fault =>
    rw [hkey] at hread
    exact hread
  | ok key =>
    rw [hkey] at hread
    rw [ok_bind] at hread ⊢
    split
    · exact hmalformed _
    · exact hread

/-- **A walk fails where a node is met again, and otherwise only as reading a node does.** -/
theorem failsAs_walk (hread : ∀ position < table.nodes.length,
    Ends faulty (fun node => ∀ child ∈ node.below, child < table.nodes.length)
      (read table time keepNatives position)) :
    ∀ (fuel : Nat) {positions : List Nat} (owner : CallTree α) (trail : Trail α),
      (∀ position ∈ positions, position < table.nodes.length) →
        FailsAs faulty (walk table time keepNatives fuel positions owner trail)
  | fuel, [], owner, trail, _ => by cases fuel <;> exact .ok _ _
  | 0, _ :: _, _, _, _ => .ok _ _
  | fuel + 1, position :: rest, owner, trail, hlt => by
    obtain ⟨hp, hrest⟩ := List.forall_mem_cons.mp hlt
    rw [walk_cons]
    refine (ends_meet hmalformed (hread position hp)).bind fun node hbelow => ?_
    have hinner : ∀ child ∈ node.below.reverse, child < table.nodes.length := fun child hchild =>
      hbelow child (List.mem_reverse.mp hchild)
    split
    · refine failsAs_walk hread fuel _ _ fun child hchild => ?_
      exact (List.mem_append.mp hchild).elim (hinner child) (hrest child)
    · refine (failsAs_walk hread fuel _ _ hinner).bind fun inner => ?_
      exact failsAs_walk hread fuel _ _ hrest

/-- A node of the table is read, or one of the steps of reading it fails. -/
theorem ends_read (hi : table.Indexed) {position : Nat} (hp : position < table.nodes.length)
    (hlists : ListsOrNot table.nodes position)
    (hids : ∀ id ∈ listed (nodeIn table.nodes position), id.CanName)
    (hcall : FailsAs faulty (Call.ofFields time (nodeIn table.nodes position)))
    (helided : FailsAs faulty (isElided keepNatives (nodeIn table.nodes position))) :
    Ends faulty (fun node => ∀ child ∈ node.below, child < table.nodes.length)
      (read table time keepNatives position) := by
  unfold read
  simp only [nodeAt_eq]
  rw [← idIn, hi.key position hp, ok_bind]
  refine Ends.bind hcall fun call _ => Ends.bind helided fun elided _ => ?_
  refine (ends_childPositions hmalformed hi hlists hids _).bind fun below hbelow => ?_
  exact hbelow

theorem failsAs_fromRoot (hi : table.Indexed) (hpos : 0 < table.nodes.length)
    (hlists : ∀ position < table.nodes.length, ListsOrNot table.nodes position)
    (hids : ∀ position < table.nodes.length,
      ∀ id ∈ listed (nodeIn table.nodes position), id.CanName)
    (hcall : ∀ position < table.nodes.length,
      FailsAs faulty (Call.ofFields time (nodeIn table.nodes position)))
    (helided : ∀ position < table.nodes.length,
      FailsAs faulty (isElided keepNatives (nodeIn table.nodes position))) :
    FailsAs faulty (fromRoot table time keepNatives) := by
  have hread := fun position hp => ends_read hmalformed hi hp (hlists position hp)
    (hids position hp) (hcall position hp) (helided position hp)
  unfold fromRoot
  simp only [nodeAt_eq, hi.require_id hpos, ok_bind, hi.key 0 hpos]
  rcases hlists 0 hpos with hnull | ⟨ids, hlist⟩
  · rw [hnull]
    exact failsAs_malformed hmalformed _
  · have hroot := hids 0 hpos
    rw [listed_of_list hlist] at hroot
    rw [hlist]
    refine (hcall 0 hpos).bind fun call => ?_
    refine (ends_findAll hmalformed hi hroot _).bind fun below hbelow => ?_
    exact failsAs_walk hmalformed hread _ _ _ fun child hchild =>
      hbelow child (List.mem_reverse.mp hchild)

end Walk

/-! ## 4. The whole way -/

theorem failsAs_redirectSamples (trail : Trail α) {samples : Option (List (Value α))}
    (h : ∀ ids, samples = some ids → ∀ id ∈ ids, id.CanName) :
    FailsAs faulty (redirectSamples trail (.ofOption (samples.map .list))) := by
  cases samples with
  | none => exact .ok _ _
  | some ids =>
    have hone : ∀ id ∈ ids, FailsAs faulty (redirectSample trail id) := by
      intro id hid
      obtain ⟨key, hkey⟩ := h ids rfl id hid
      unfold redirectSample
      rw [hkey, ok_bind]
      split
      · exact .ok _ _
      · exact failsAs_malformed hmalformed _
    change FailsAs faulty (ids.mapM (redirectSample trail) >>= fun redirected =>
      .ok (some redirected))
    exact FailsAs.bind (Ends.mapM hone).failsAs fun _ => .ok _ _

end Faults

/-- The arithmetic with a table, and the reading of its nodes, fail in some way only. -/
structure Computes (faulty : Fault → Prop) (table : NodeTable α) (start finish : Value α)
    (keepNatives : Bool) : Prop where
  calls : Ends faulty (fun total => Ends faulty (fun time => ∀ position < table.nodes.length,
      FailsAs faulty (Call.ofFields time (nodeIn table.nodes position)))
    (sampleTime total start finish)) table.totalHits
  elided : ∀ position < table.nodes.length,
    FailsAs faulty (isElided keepNatives (nodeIn table.nodes position))

section Faults

variable {faulty : Fault → Prop} (hmalformed : ∀ why, faulty (.malformed why))
  {samples : Option (List (Value α))} {start finish : Value α} {keepNatives : Bool}

include hmalformed

theorem failsAs_ofTable {table : NodeTable α} (hi : table.Indexed) (hpos : 0 < table.nodes.length)
    (hlists : ∀ position < table.nodes.length, ListsOrNot table.nodes position)
    (hids : ∀ position < table.nodes.length,
      ∀ id ∈ listed (nodeIn table.nodes position), id.CanName)
    (hsamples : ∀ ids, samples = some ids → ∀ id ∈ ids, id.CanName)
    (h : Computes faulty table start finish keepNatives) :
    FailsAs faulty (ofTable table (.ofOption (samples.map .list)) start finish keepNatives) := by
  refine h.calls.bind fun total htotal => htotal.bind fun time hcall => ?_
  refine (failsAs_fromRoot hmalformed hi hpos hlists hids hcall h.elided).bind fun walked => ?_
  dsimp only
  split
  · exact hmalformed _
  · exact (failsAs_redirectSamples hmalformed walked.2 hsamples).bind fun _ => .ok _ _

/-- Children can be filled in behind the hits, or what should name them does not. -/
theorem failsAs_fillChildren_fillHits {table : NodeTable α} (hi : table.Indexed)
    (hne : table.nodes ≠ [])
    (hnodes : ∀ position < table.nodes.length, IsFlatNode (nodeIn table.nodes position))
    (samples : Value α) : FailsAs faulty (table.fillHits samples).1.fillChildren.2 := by
  have hcounted := fills_fillHits table samples
  refine failsAs_fillChildren hmalformed (hcounted.indexed (by decide) hi) ?_ ?_ ?_
  · rw [← List.length_pos_iff, hcounted.length]
    exact List.length_pos_iff.mpr hne
  · intro position hp
    rw [ListsOrNot, hcounted.get_eq position (by decide)]
    exact (hnodes position (hcounted.length ▸ hp)).lists
  · intro position hp
    rw [hcounted.get_eq position (by decide)]
    exact (hnodes position (hcounted.length ▸ hp)).parent

/-- **A list of nodes in which names can be names is malformed if it is refused, or else a step of
arithmetic or of reading a node fails.** -/
theorem failsAs_ofNodes {nodes : List (Fields α)} (hnodes : ∀ node ∈ nodes, IsFlatNode node)
    (hsamples : ∀ ids, samples = some ids → ∀ id ∈ ids, id.CanName)
    (h : ∀ table, NodeTable.ofNodes (nodes.map .obj) = .ok table →
      (table.fillHits (.ofOption (samples.map .list))).1.fillChildren.2 = .ok () →
      Computes faulty (filledTable table (.ofOption (samples.map .list))) start finish
        keepNatives) :
    FailsAs faulty
      (ofNodes (nodes.map .obj) (.ofOption (samples.map .list)) start finish keepNatives).2 := by
  by_cases hne : nodes = []
  · subst hne
    exact hmalformed _
  have hgiven : (nodes.map Value.obj).isEmpty = false := by simpa using hne
  have hmade := failsAs_table hmalformed fun node hnode => (hnodes node hnode).id
  cases htable : NodeTable.ofNodes (nodes.map .obj) with
  | error fault =>
    rw [htable] at hmade
    simp only [ofNodes, hgiven, Bool.false_eq_true, if_false, htable]
    exact hmade
  | ok table =>
    obtain ⟨rfl, hi⟩ := indexed_ofNodes htable
    have hnode : ∀ position < table.nodes.length, IsFlatNode (nodeIn table.nodes position) :=
      fun position hp => nodeIn_eq_getElem hp ▸ hnodes _ (List.getElem_mem hp)
    have hchildren := failsAs_fillChildren_fillHits hmalformed hi hne hnode
      (.ofOption (samples.map .list))
    rw [ofNodes_snd_eq hne htable]
    refine (failsAs_fillHits hmalformed hne hsamples).bind fun _ => ?_
    refine (hchildren.and_ok fun _ hok => hok).bind fun _ hdone => ?_
    obtain ⟨-, hlinked⟩ := hdone
    have hfilled := filled_filledTable htable hlinked
    obtain ⟨hlists, -⟩ := listsOrNot_filledTable htable hlinked fun position hp =>
      (hnode position hp).lists
    refine failsAs_ofTable hmalformed hfilled.indexed (hfilled.length ▸ List.length_pos_iff.mpr hne)
      (fun position hp => hlists position (hfilled.length ▸ hp)) ?_ hsamples (h table htable hlinked)
    intro position hp id hid
    rw [hfilled.length] at hp
    rw [hfilled.lists position hp] at hid
    exact canName_of_mem_childIds hnode hp hid

end Faults

end Contraction
end SampledProfile
