/-
# Tables that agree but for some fields

Two tables agree but for some fields when they have the same names and their nodes differ in nothing
else (`NodeTable.Agree`).  Whatever does not read these fields does the same to both:

* `alike_ofNodes`: both are made of lists of nodes that differ in nothing else;
* `agree_fillHits`: hits are counted in both or in neither;
* `agree_fillChildren`: children are linked in both or in neither.

Each goes from the step for one node to the step for all of them, and the tables agree afterwards
but for the same fields.
-/
import SampledProfile.Proofs.NodeTable.Children

namespace SampledProfile

open Outcome

variable {α : Type}

/-! ## 1. Nodes -/

namespace Fields

/-- A field that has a value is there. -/
theorem get?_of_get {fields : Fields α} {name : String} {value : Value α}
    (h : fields.get name = value) (hne : value ≠ .null) : fields.get? name = some value := by
  unfold get at h
  cases hfield : fields.get? name with
  | none =>
    rw [hfield] at h
    exact absurd h.symm hne
  | some found =>
    rw [hfield] at h
    exact congrArg some h

/-- The nodes have the same fields but for some names. -/
def Same (but : List String) (node other : Fields α) : Prop :=
  ∀ name, name ∉ but → other.get? name = node.get? name

namespace Same

variable {but : List String} {node other : Fields α} {name : String}

theorem refl (but : List String) (node : Fields α) : node.Same but node := fun _ _ => rfl

theorem trans {third : Fields α} (h : node.Same but other) (h' : other.Same but third) :
    node.Same but third :=
  fun name hname => (h' name hname).trans (h name hname)

theorem mono {more : List String} (h : node.Same but other) (hsub : but ⊆ more) :
    node.Same more other :=
  fun name hname => h name fun hmem => hname (hsub hmem)

theorem get (h : node.Same but other) (hname : name ∉ but) : other.get name = node.get name := by
  rw [Fields.get, h name hname, Fields.get]

theorem getD (h : node.Same but other) (hname : name ∉ but) (value : Value α) :
    other.getD name value = node.getD name value := by
  rw [Fields.getD, h name hname, Fields.getD]

theorem require (h : node.Same but other) (hname : name ∉ but) :
    other.require name = node.require name := by
  rw [Fields.require, h name hname, Fields.require]

/-- A field that both are given is the same in both, be it one of the names or not. -/
theorem set (h : node.Same but other) (name : String) (value : Value α) :
    (node.set name value).Same but (other.set name value) := by
  intro field hfield
  by_cases heq : name = field
  · rw [heq, get?_set_self, get?_set_self]
  · rw [get?_set_of_ne _ _ heq, get?_set_of_ne _ _ heq, h field hfield]

/-- What is set under one of the names does not matter. -/
theorem set_right (h : node.Same but other) (hname : name ∈ but) (value : Value α) :
    node.Same but (other.set name value) := by
  intro field hfield
  have hne : name ≠ field := fun heq => hfield (heq ▸ hname)
  rw [get?_set_of_ne _ _ hne, h field hfield]

end Same
end Fields

namespace NodeTable

/-! ## 2. Tables -/

/-- The tables have the same names, and the same nodes but for some fields. -/
structure Agree (but : List String) (table other : NodeTable α) : Prop where
  names : other.names = table.names
  length : other.nodes.length = table.nodes.length
  nodes : ∀ position, (nodeIn table.nodes position).Same but (nodeIn other.nodes position)

namespace Agree

variable {but : List String} {table other : NodeTable α}

theorem refl (but : List String) (table : NodeTable α) : Agree but table table :=
  ⟨rfl, rfl, fun _ => .refl _ _⟩

theorem trans {third : NodeTable α} (h : Agree but table other) (h' : Agree but other third) :
    Agree but table third :=
  ⟨h'.names.trans h.names, h'.length.trans h.length,
    fun position => (h.nodes position).trans (h'.nodes position)⟩

theorem symm (h : Agree but table other) : Agree but other table :=
  ⟨h.names.symm, h.length.symm, fun position name hname => (h.nodes position name hname).symm⟩

theorem mono {more : List String} (h : Agree but table other) (hsub : but ⊆ more) :
    Agree more table other :=
  ⟨h.names, h.length, fun position => (h.nodes position).mono hsub⟩

/-- Filling in a field changes nothing else. -/
theorem of_fills {name : String} (h : Fills name table other) : Agree [name] table other :=
  ⟨h.names, h.length, fun position field hfield =>
    h.others position field fun heq => hfield (List.mem_singleton.mpr heq)⟩

/-- A field in which the nodes turn out to be the same need not be left out. -/
theorem with_field {name : String} (h : Agree (name :: but) table other)
    (hfield : ∀ position < table.nodes.length,
      (nodeIn other.nodes position).get? name = (nodeIn table.nodes position).get? name) :
    Agree but table other := by
  refine ⟨h.names, h.length, fun position field hbut => ?_⟩
  by_cases heq : field = name
  · subst heq
    by_cases hp : position < table.nodes.length
    · exact hfield position hp
    · have hp' : ¬ position < other.nodes.length := h.length ▸ hp
      simp [nodeIn, hp, hp']
  · exact h.nodes position field (by simpa [heq] using hbut)

theorem idIn_eq (h : Agree but table other) (hid : "id" ∉ but) :
    idIn other.nodes = idIn table.nodes :=
  funext fun position => (h.nodes position).get hid

theorem set (h : Agree but table other) (position : Nat) (name : String) (value : Value α) :
    Agree but (table.set position name value) (other.set position name value) := by
  refine ⟨h.names, by simpa [NodeTable.set] using h.length, fun place => ?_⟩
  rw [nodeIn_set, nodeIn_set, h.length]
  split
  · exact (h.nodes place).set name value
  · exact h.nodes place

variable [Scalar α]

theorem find_eq (h : Agree but table other) (id : Value α) (referrer : String) :
    other.find id referrer = table.find id referrer := by
  rw [find, h.names, find]

theorem findAll_eq (h : Agree but table other) (ids : List (Value α)) (referrer : String) :
    other.findAll ids referrer = table.findAll ids referrer := by
  simp only [findAll, h.find_eq]

theorem known_iff (h : Agree but table other) (hid : "id" ∉ but) {id : Value α} :
    Known other.nodes id ↔ Known table.nodes id := by
  rw [Known, h.length, h.idIn_eq hid, Known]

theorem indexed (h : Agree but table other) (hid : "id" ∉ but) (hi : table.Indexed) :
    other.Indexed := by
  have hkey : keyIn other.nodes = keyIn table.nodes := funext fun position => by
    rw [keyIn, h.idIn_eq hid, keyIn]
  refine ⟨?_, ?_, ?_, ?_⟩
  · rw [h.names, h.length, hkey, hi.names]
  · rw [h.length, h.idIn_eq hid, hkey]
    exact hi.key
  · rw [h.length, hkey]
    exact hi.inj
  · rw [h.length, h.idIn_eq hid]
    exact hi.given

end Agree

theorem same_nodeIn {but : List String} {nodes others : List (Fields α)}
    (h : List.Forall₂ (Fields.Same but) nodes others) (position : Nat) :
    (nodeIn nodes position).Same but (nodeIn others position) := by
  obtain ⟨hlength, hsame⟩ := List.forall₂_iff_get.mp h
  by_cases hp : position < nodes.length
  · have hp' := hlength ▸ hp
    rw [nodeIn_eq_getElem hp, nodeIn_eq_getElem hp']
    exact hsame position hp hp'
  · have hp' : ¬ position < others.length := hlength ▸ hp
    simpa [nodeIn, hp, hp'] using Fields.Same.refl but []

/-! ## 3. Making tables -/

variable [Scalar α] {but : List String} {table other : NodeTable α}

omit [Scalar α] in
theorem agree_append (h : Agree but table other) {node node' : Fields α}
    (hnode : node.Same but node') {names : List (Key × Nat)} :
    Agree but ⟨table.nodes ++ [node], names⟩ ⟨other.nodes ++ [node'], names⟩ := by
  refine ⟨rfl, by simp [h.length], fun position => ?_⟩
  rcases Nat.lt_trichotomy position table.nodes.length with hlt | rfl | hgt
  · show (nodeIn (table.nodes ++ [node]) position).Same but
      (nodeIn (other.nodes ++ [node']) position)
    rw [nodeIn_append_of_lt hlt, nodeIn_append_of_lt (h.length ▸ hlt)]
    exact h.nodes position
  · have hself := nodeIn_append_self other.nodes node'
    rw [h.length] at hself
    show (nodeIn (table.nodes ++ [node]) _).Same but (nodeIn (other.nodes ++ [node']) _)
    rw [nodeIn_append_self, hself]
    exact hnode
  · have hout : ∀ nodes : List (Fields α), nodes.length = table.nodes.length →
        ∀ node, nodeIn (nodes ++ [node]) position = [] := fun nodes hlength node => by
      rw [nodeIn, List.getElem?_eq_none (by simp; omega)]
      rfl
    show (nodeIn (table.nodes ++ [node]) position).Same but
      (nodeIn (other.nodes ++ [node']) position)
    rw [hout _ rfl, hout _ h.length]
    exact .refl _ _

theorem alike_push (hid : "id" ∉ but) (h : Agree but table other) {node node' : Fields α}
    (hnode : node.Same but node') :
    Alike (Agree but) (table.push (.obj node)) (other.push (.obj node')) := by
  simp only [push, Value.fields, ok_bind, hnode.get hid, h.names, h.length]
  refine .check (.bind_same fun key _ => .check (.ok ?_))
  exact agree_append h hnode

/-- **Nodes that are the same but for some fields make tables that agree but for these.** -/
theorem alike_ofNodes (hid : "id" ∉ but) {nodes others : List (Fields α)}
    (h : List.Forall₂ (Fields.Same but) nodes others) :
    Alike (Agree but) (ofNodes (nodes.map .obj)) (ofNodes (others.map .obj)) := by
  rw [ofNodes, ofNodes, List.foldlM_map, List.foldlM_map]
  exact .foldlM h (fun _ _ hagree _ _ => alike_push hid hagree) (.refl but ⟨[], []⟩)

/-! ## 4. Hits -/

theorem agree_hit (hhits : "hitCount" ∉ but) (h : Agree but table other) (position : Nat) :
    Agree but (table.hit position) (other.hit position) := by
  simp only [hit, nodeAt_eq, (h.nodes position).get hhits]
  split
  · exact h.set position "hitCount" _
  · exact h

theorem agree_clearHits (h : Agree but table other) :
    Agree but table.clearHits other.clearHits := by
  refine ⟨h.names, by simpa [clearHits] using h.length, fun position => ?_⟩
  by_cases hp : position < table.nodes.length
  · have hnode := h.nodes position
    have hp' := h.length ▸ hp
    rw [nodeIn_eq_getElem hp, nodeIn_eq_getElem hp'] at hnode
    simpa [clearHits, nodeIn, hp, hp'] using hnode.set "hitCount" (.int 0)
  · have hp' : ¬ position < other.nodes.length := h.length ▸ hp
    simpa [clearHits, nodeIn, hp, hp'] using Fields.Same.refl but []

omit [Scalar α] in
/-- The first nodes are the same but for some fields, if there are any. -/
theorem Agree.cases (h : Agree but table other) :
    (table.nodes = [] ∧ other.nodes = []) ∨ ∃ first rest first' rest',
      table.nodes = first :: rest ∧ other.nodes = first' :: rest' ∧ first.Same but first' ∧
        rest'.length = rest.length := by
  have hlength := h.length
  have hfirst := h.nodes 0
  cases hnodes : table.nodes with
  | nil =>
    rw [hnodes] at hlength
    exact .inl ⟨rfl, List.length_eq_zero_iff.mp hlength⟩
  | cons first rest =>
    cases hothers : other.nodes with
    | nil => simp [hnodes, hothers] at hlength
    | cons first' rest' =>
      rw [hnodes, hothers] at hlength hfirst
      exact .inr ⟨first, rest, first', rest', rfl, rfl, hfirst, Nat.succ.inj hlength⟩

/-- **Hits are filled into both or into neither.** -/
theorem agree_fillHits (hhits : "hitCount" ∉ but) (h : Agree but table other)
    (samples : Value α) :
    Agree but (table.fillHits samples).1 (other.fillHits samples).1 ∧
      (other.fillHits samples).2 = (table.fillHits samples).2 := by
  refine @related_fillHits _ _ (Agree but) (fun {table other} h sample => ?_) agree_clearHits _ _ h ?_
    samples
  · rw [h.find_eq]
    cases table.find sample "samples" with
    | error fault => exact .error fault
    | ok position => exact .ok (agree_hit hhits h position)
  · rcases h.cases with ⟨hnodes, hothers⟩ | ⟨first, rest, first', rest', hnodes, hothers, hfirst, -⟩
    · rw [hnodes, hothers]
    · rw [hnodes, hothers, List.head?_cons, List.head?_cons, Option.map_some, Option.map_some,
        hfirst.get hhits]

/-- Hits add up to the same. -/
theorem Agree.totalHits_eq (hhits : "hitCount" ∉ but) (h : Agree but table other) :
    other.totalHits = table.totalHits := by
  have hsame : other.nodes.map (·.get "hitCount") = table.nodes.map (·.get "hitCount") := by
    refine List.ext_getElem (by simp [h.length]) fun position hp hp' => ?_
    rw [List.length_map] at hp hp'
    rw [List.getElem_map, List.getElem_map, ← nodeIn_eq_getElem hp, ← nodeIn_eq_getElem hp']
    exact (h.nodes position).get hhits
  have hsum : ∀ nodes : List (Fields α), nodes.foldlM
      (fun sum node => do Scalar.add? sum (← ((node.get "hitCount").orElse (.int 0)).number))
        (Scalar.ofInt 0) =
      (nodes.map (·.get "hitCount")).foldlM
        (fun sum hits => do Scalar.add? sum (← (hits.orElse (.int 0)).number))
          (Scalar.ofInt 0) := fun nodes => by
      rw [List.foldlM_map]
  rw [totalHits, totalHits, hsum, hsum, hsame]

/-! ## 5. Children -/

section Children

variable (hid : "id" ∉ but) (hparent : "parent" ∉ but) (hchildren : "children" ∉ but)

include hid hparent hchildren

theorem alike_link (h : Agree but table other) (position : Nat) :
    Alike (Agree but) (table.link position) (other.link position) := by
  simp only [link, nodeAt_eq, (h.nodes position) "parent" hparent,
    (h.nodes position).require hid, h.find_eq]
  split
  · exact .bind_same fun id _ => .error _
  · refine .bind_same fun id _ => .bind_same fun above _ => ?_
    rw [(h.nodes above).get hchildren]
    split
    · exact .ok (h.set above "children" _)
    · exact .ok (h.set above "children" _)
    · exact .error _

theorem agree_linkAll : ∀ (positions : List Nat) {table other : NodeTable α},
    Agree but table other →
      Agree but (table.linkAll positions).1 (other.linkAll positions).1 ∧
        (other.linkAll positions).2 = (table.linkAll positions).2
  | [], _, _, h => ⟨h, rfl⟩
  | position :: rest, table, other, h => by
    have hlink := alike_link hid hparent hchildren h position
    rw [linkAll, linkAll]
    generalize table.link position = x at hlink
    generalize other.link position = y at hlink
    cases hlink with
    | error fault => exact ⟨h, rfl⟩
    | ok hnext => exact agree_linkAll rest hnext

/-- **Children are filled into both or into neither.** -/
theorem agree_fillChildren (h : Agree but table other) :
    Agree but table.fillChildren.1 other.fillChildren.1 ∧
      other.fillChildren.2 = table.fillChildren.2 := by
  rcases h.cases with
    ⟨hnodes, hothers⟩ | ⟨first, rest, first', rest', hnodes, hothers, hfirst, hlength⟩
  · simp only [fillChildren, hnodes, hothers]
    exact ⟨h, trivial⟩
  · simp only [fillChildren, hnodes, hothers, hfirst.get hchildren, hlength]
    split
    · exact ⟨h, rfl⟩
    · exact agree_linkAll hid hparent hchildren _ (h.set 0 "children" _)

end Children

end NodeTable
end SampledProfile
