/-
# The flat list of nodes under other names

Everything that is done to a `NodeTable` is done to the one with other names (`Renaming.table`): a
node is found where it was (`Renaming.image_find`), the hits are those that were counted
(`Renaming.filled_fillHits`), and the children that are made from the parents have the new names
(`Renaming.filled_fillChildren`).

The two operations that fill in fields give a table in any case, so what is said of them is said of
the table and of the outcome beside it (`Renaming.Filled`).
-/
import SampledProfile.NodeTable
import SampledProfile.Proofs.Renaming.Basic

namespace SampledProfile
namespace Renaming

open Outcome NodeTable

variable {α : Type} [Scalar α] (r : Renaming α)

/-- The table with new names for its nodes. -/
def table (table : NodeTable α) : NodeTable α :=
  ⟨table.nodes.map r.fields, table.names.map fun entry => (r.key entry.1, entry.2)⟩

/-! ## 1. Making a table -/

theorem nodeAt_table (table : NodeTable α) (position : Nat) :
    (r.table table).nodeAt position = r.fields (table.nodeAt position) := by
  unfold nodeAt Renaming.table
  rw [List.getElem?_map]
  cases table.nodes[position]? <;> rfl

theorem length_table (table : NodeTable α) :
    (r.table table).nodes.length = table.nodes.length :=
  List.length_map _

theorem lookup_names (table : NodeTable α) (key : Key) :
    (r.key key).lookup (r.table table).names = key.lookup table.names := by
  rw [← Option.map_id_apply (x := key.lookup table.names)]
  exact r.lookup_map id key table.names

theorem image_push (table : NodeTable α) (v : Value α) :
    Image r.table (table.push v) ((r.table table).push (r.node v)) := by
  cases v with
  | obj node =>
    simp only [push, Renaming.node, Value.fields, ok_bind, get_id, isNull_value]
    refine .check fun _ => (r.image_key _).bind fun key _ => ?_
    rw [lookup_names]
    refine .check fun _ => ?_
    have htable : (⟨(r.table table).nodes ++ [r.fields node],
        (r.table table).names ++ [(r.key key, (r.table table).nodes.length)]⟩ : NodeTable α) =
          r.table ⟨table.nodes ++ [node], table.names ++ [(key, table.nodes.length)]⟩ := by
      simp [Renaming.table]
    rw [htable]
    exact .ok _
  | _ => exact .error _ _

theorem image_ofNodes (nodes : List (Value α)) :
    Image r.table (ofNodes nodes) (ofNodes (nodes.map r.node)) :=
  .foldlM fun table node _ => r.image_push table node

/-! ## 2. Finding and changing nodes -/

theorem image_find (table : NodeTable α) (name : Value α) (referrer other : String) :
    Image id (table.find name referrer) ((r.table table).find (r.value name) other) := by
  refine (r.image_key name).bind fun key _ => ?_
  rw [lookup_names]
  cases key.lookup table.names with
  | none => exact .error _ _
  | some position => exact .ok position

theorem image_findAll (table : NodeTable α) (names : List (Value α)) (referrer other : String) :
    Image id (table.findAll names referrer)
      ((r.table table).findAll (names.map r.value) other) := by
  rw [← List.map_id_fun]
  exact .mapM fun name _ => r.image_find table name referrer other

theorem map_modify {β γ : Type} {g : β → γ} {f : β → β} {f' : γ → γ}
    (h : ∀ entry, f' (g entry) = g (f entry)) (entries : List β) (position : Nat) :
    (entries.map g).modify position f' = (entries.modify position f).map g := by
  refine List.ext_getElem? fun other => ?_
  rw [List.getElem?_modify, List.getElem?_map, List.getElem?_map, List.getElem?_modify]
  cases entries[other]? with
  | none => rfl
  | some entry =>
    by_cases hother : position = other
    · simp [hother, h]
    · simp [hother]

theorem set_table (table : NodeTable α) (position : Nat) (name : String) (v : Value α) :
    (r.table table).set position name (r.entry name v) = r.table (table.set position name v) :=
  congrArg (NodeTable.mk · _) (map_modify (fun node => r.set_fields node name v) _ _)

/-! ## 3. Hit counts -/

/-- The second of two operations on tables leaves the table of the first with new names, and comes
to its end exactly if the first does. -/
def Filled (first second : NodeTable α × Except Fault Unit) : Prop :=
  second.1 = r.table first.1 ∧ Image id first.2 second.2

theorem Filled.ok (table : NodeTable α) : r.Filled (table, .ok ()) (r.table table, .ok ()) :=
  ⟨rfl, .ok ()⟩

theorem Filled.error (table : NodeTable α) (fault other : Fault) :
    r.Filled (table, .error fault) (r.table table, .error other) :=
  ⟨rfl, .error fault other⟩

theorem isPlain_hitCount : IsPlain "hitCount" := by decide

theorem get_hitCount (node : Fields α) :
    Fields.get (r.fields node) "hitCount" = node.get "hitCount" :=
  r.get_fields_of_isPlain node _ isPlain_hitCount

theorem set_hitCount (table : NodeTable α) (position : Nat) (v : Value α) :
    (r.table table).set position "hitCount" v = r.table (table.set position "hitCount" v) := by
  rw [← set_table, r.entry_of_isPlain isPlain_hitCount]

theorem hit_table (table : NodeTable α) (position : Nat) :
    (r.table table).hit position = r.table (table.hit position) := by
  unfold hit
  rw [nodeAt_table, get_hitCount]
  cases ((table.nodeAt position).get "hitCount").number? with
  | none => rfl
  | some count => exact r.set_hitCount table position _

theorem filled_countHits : ∀ (samples : List (Value α)) (table : NodeTable α),
    r.Filled (table.countHits samples) ((r.table table).countHits (samples.map r.value))
  | [], table => .ok r table
  | sample :: rest, table => by
    rw [List.map_cons, countHits, countHits]
    have hfind := r.image_find table sample "samples" "samples"
    revert hfind
    generalize table.find sample "samples" = found
    generalize (r.table table).find (r.value sample) "samples" = found'
    rintro (⟨fault, other⟩ | position)
    · exact .error r table fault other
    · have hrest := filled_countHits rest (table.hit position)
      rwa [← hit_table] at hrest

theorem clearHits_table (table : NodeTable α) :
    (r.table table).clearHits = r.table table.clearHits := by
  unfold clearHits Renaming.table
  simp only [List.map_map, NodeTable.mk.injEq, and_true]
  refine List.map_congr_left fun node _ => ?_
  exact (congrArg _ (r.entry_of_isPlain isPlain_hitCount _)).symm.trans (r.set_fields node _ _)

theorem filled_fillHits (table : NodeTable α) (samples : Value α) :
    r.Filled (table.fillHits samples) ((r.table table).fillHits (r.listed samples)) := by
  obtain ⟨nodes, names⟩ := table
  cases nodes with
  | nil => exact .error r ⟨[], names⟩ _ _
  | cons first rest =>
    simp only [fillHits, Renaming.table, List.map_cons, get_hitCount, isNull_listed, items_listed]
    split
    · exact .ok r ⟨first :: rest, names⟩
    · split
      · exact .error r ⟨first :: rest, names⟩ _ _
      · have hclear := r.clearHits_table ⟨first :: rest, names⟩
        simp only [Renaming.table, List.map_cons] at hclear
        cases samples.items with
        | error fault => exact hclear ▸ .error r (clearHits ⟨first :: rest, names⟩) _ _
        | ok samples => exact hclear ▸ r.filled_countHits samples (clearHits ⟨first :: rest, names⟩)

theorem totalHits_table (table : NodeTable α) : (r.table table).totalHits = table.totalHits := by
  unfold totalHits Renaming.table
  rw [List.foldlM_map]
  simp only [get_hitCount]

/-! ## 4. Children -/

/-- A node under new names is given the new names of its children. -/
theorem image_list (table : NodeTable α) (position : Nat) (names : List (Value α)) :
    Image r.table (.ok (table.set position "children" (.list names)) : Except Fault _)
      (.ok ((r.table table).set position "children" (.list (names.map r.value)))) := by
  have hset := r.set_table table position "children" (.list names)
  exact hset ▸ .ok _

theorem image_link (table : NodeTable α) (position : Nat) :
    Image r.table (table.link position) ((r.table table).link position) := by
  simp only [link, nodeAt_table, get?_parent]
  cases (table.nodeAt position).get? "parent" with
  | none => exact (r.image_require_id _).bind fun _ _ => .error _ _
  | some parent =>
    refine (r.image_require_id _).bind fun name _ => ?_
    refine (r.image_find table parent _ _).bind fun above _ => ?_
    rw [id_eq, get_children]
    cases (table.nodeAt above).get "children" with
    | null => exact r.image_list table above [name]
    | list names =>
      have hlist := r.image_list table above (names ++ [name])
      rw [List.map_append] at hlist
      exact hlist
    | _ => exact .error _ _

theorem filled_linkAll : ∀ (positions : List Nat) (table : NodeTable α),
    r.Filled (table.linkAll positions) ((r.table table).linkAll positions)
  | [], table => .ok r table
  | position :: rest, table => by
    rw [linkAll, linkAll]
    have hlink := r.image_link table position
    revert hlink
    generalize table.link position = linked
    generalize (r.table table).link position = linked'
    rintro (⟨fault, other⟩ | next)
    · exact .error r table fault other
    · exact filled_linkAll rest next

theorem filled_fillChildren (table : NodeTable α) :
    r.Filled table.fillChildren (r.table table).fillChildren := by
  obtain ⟨nodes, names⟩ := table
  cases nodes with
  | nil => exact .error r ⟨[], names⟩ _ _
  | cons first rest =>
    simp only [fillChildren, Renaming.table, List.map_cons, get_children, isNull_listed,
      List.length_map]
    split
    · exact .ok r ⟨first :: rest, names⟩
    · have hset := r.set_table ⟨first :: rest, names⟩ 0 "children" (.list [])
      exact hset ▸ r.filled_linkAll (List.range' 1 rest.length) _

end Renaming
end SampledProfile
