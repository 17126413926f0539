/-
# A report in new tables

Where there are no tables yet, writing a report makes both of them and fills them with the rows of the
report (`Tables.isReport_of_write`), or it stops somewhere: then there may be the first table or both,
and no rows in the one that it stopped at.

The tables of a report are free: any row may stand in them.  So rows are taken up as they come
(`Writing.run_collect`), and one table is filled without a look at the other (`Writing.run_addRows`).
-/
import SampledProfile.Proofs.Effect
import SampledProfile.Proofs.Outcome
import SampledProfile.Tables.Basic

namespace SampledProfile
namespace Tables

open Effect Outcome

/-- The values of the rows of a report in the order of some columns. -/
def valuesOf (columns : List Column) (report : Value Number) :
    Except Fault (List (List (Value Number))) := do
  (← report.items).mapM (Row.values columns)

/-- The rows of a report in the cells of some columns. -/
def cellsOf (columns : List Column) (report : Value Number) : Except Fault (List Row) := do
  (← valuesOf columns report).mapM (Row.ofValues columns)

/-- A new table of some columns with rows. -/
def filled (name : String) (columns : List Column) (rows : List Row) : Table :=
  { Table.ofColumns name columns with rows }

/-- The tables hold the rows of a report and nothing else. -/
def IsReport (nodes frames : Value Number) (tables : Tables) : Prop :=
  ∃ nodeRows frameRows, cellsOf nodeColumns nodes = .ok nodeRows ∧
    cellsOf frameColumns frames = .ok frameRows ∧
    tables = ⟨[filled nodesName nodeColumns nodeRows, filled framesName frameColumns frameRows], []⟩

/-! ## 1. One table -/

theorem sameName_self (name : String) : sameName name name = true := beq_self_eq_true _

theorem find?_add {tables : Tables} (table : Table) (h : tables.find? table.name = none) :
    (tables.add table).find? table.name = some table := by
  have hnone : tables.tables.find? (fun other => sameName other.name table.name) = none := h
  rw [find?, add, List.find?_append, hnone, Option.none_or, List.find?_cons, sameName_self]

theorem replaceRows_add {tables : Tables} (table : Table) (rows : List Row)
    (h : tables.find? table.name = none) :
    (tables.add table).replaceRows table.name rows = tables.add { table with rows } := by
  have hother : ∀ other ∈ tables.tables, sameName other.name table.name = false := by
    intro other hmem
    have := List.find?_eq_none.mp h other hmem
    simpa using this
  have hmap : tables.tables.map (fun other =>
      if sameName other.name table.name then { other with rows } else other) = tables.tables := by
    conv => rhs; rw [← List.map_id tables.tables]
    refine List.map_congr_left fun other hmem => ?_
    rw [hother other hmem]
    rfl
  rw [replaceRows, add, add, List.map_append, hmap, List.map_singleton, sameName_self]
  rfl

namespace Writing

/-- Where tables may be changed and there is room, rows that any table takes are taken up as they
come. -/
theorem run_collect {table : Table} (hfree : table.definition.isFree = true) (tables : Tables) :
    ∀ (values : List (List (Value Number))) (added : List Row),
      Effect.run (collect table values added) ⟨tables, true, true, true⟩ =
        ((values.mapM (Row.ofValues table.definition.columns)).map (·.reverse ++ added),
          ⟨tables, true, true, true⟩)
  | [], added => rfl
  | first :: rest, added => by
    rw [List.mapM_cons]
    unfold collect take requireOpen beginChange
    rw [run_bind, run_mk]
    cases Row.ofValues table.definition.columns first with
    | error fault => rfl
    | ok row =>
      simp only [run_bind, run_get, hfree, if_true, run_pure, run_modify, Bool.not_true,
        Bool.false_eq_true, if_false]
      rw [run_collect hfree tables rest (row :: added), ok_bind]
      cases rest.mapM (Row.ofValues table.definition.columns) with
      | error fault => rfl
      | ok rows =>
        have hrows : rows.reverse ++ row :: added = (row :: rows).reverse ++ added := by simp
        simp only [Except.map, hrows]
        rfl

/-- A table that is not there yet is made, if there is room. -/
theorem run_ensure {tables : Tables} {name : String} (hextras : tables.extras = [])
    (hnone : tables.find? name = none) (columns : List Column) (hasRoom isBegun : Bool) :
    Effect.run (ensure name columns) ⟨tables, true, hasRoom, isBegun⟩ =
      if hasRoom then (.ok ⟨⟩, ⟨tables.add (Table.ofColumns name columns), true, true, true⟩)
      else (.error .storeUnavailable, ⟨tables, true, false, isBegun⟩) := by
  have hextra : ∀ kind, tables.extra? name kind = none := by
    intro kind
    rw [extra?, hextras]
    rfl
  unfold ensure requireOpen beginChange
  cases hasRoom with
  | false =>
    simp only [run_bind, run_get, hnone, hextra, Option.isSome_none, Bool.or_self,
      Bool.false_eq_true, if_false, Bool.not_true, run_pure, run_throw]
  | true =>
    simp only [run_bind, run_get, hnone, hextra, Option.isSome_none, Bool.or_self,
      Bool.false_eq_true, if_false, Bool.not_true, run_pure, if_true, run_modify]

/-- **A table that is not there yet is made and filled.** -/
theorem run_addRows {tables : Tables} {name : String} (hextras : tables.extras = [])
    (hnone : tables.find? name = none) {columns : List Column}
    (hfree : (Definition.ofColumns columns).isFree = true) (report : Value Number)
    (hasRoom isBegun : Bool) :
    Effect.run (addRows name columns report) ⟨tables, true, hasRoom, isBegun⟩ =
      if hasRoom then
        match cellsOf columns report with
        | .ok rows => (.ok ⟨⟩, ⟨tables.add (filled name columns rows), true, true, true⟩)
        | .error fault =>
          (.error fault, ⟨tables.add (Table.ofColumns name columns), true, true, true⟩)
      else (.error .storeUnavailable, ⟨tables, true, false, isBegun⟩) := by
  unfold addRows
  rw [run_bind, run_ensure hextras hnone]
  cases hasRoom with
  | false => rfl
  | true =>
    have hfound : (tables.add (Table.ofColumns name columns)).find? name =
        some (Table.ofColumns name columns) :=
      find?_add (Table.ofColumns name columns) hnone
    unfold take tableOf cellsOf
    rw [if_pos rfl, if_pos rfl]
    dsimp only
    rw [run_bind, run_mk, ← valuesOf]
    cases valuesOf columns report with
    | error fault => rfl
    | ok values =>
      have hcolumns : (Table.ofColumns name columns).definition.columns = columns := rfl
      dsimp only
      rw [run_bind, run_bind, run_get]
      simp only [hfound]
      rw [hcolumns, if_pos rfl, run_pure]
      dsimp only
      rw [run_bind, run_collect hfree, ok_bind]
      rw [hcolumns]
      cases values.mapM (Row.ofValues columns) with
      | error fault => rfl
      | ok rows =>
        have hrows : (Table.ofColumns name columns).definition.arrange
            ((Table.ofColumns name columns).rows ++ (rows.reverse ++ []).reverse) = rows := by
          rw [List.append_nil, List.reverse_reverse]
          rfl
        have hfill : (tables.add (Table.ofColumns name columns)).replaceRows name rows =
            tables.add (filled name columns rows) :=
          replaceRows_add (Table.ofColumns name columns) rows hnone
        simp only [Except.map, run_modify, hrows, hfill]

end Writing

/-! ## 2. Both tables -/

/-- Where there are no tables, one after the other is made and filled, if there is room. -/
theorem write_empty (hasRoom : Bool) (nodes frames : Value Number) :
    Tables.empty.write true hasRoom nodes frames =
      if hasRoom then
        match cellsOf nodeColumns nodes with
        | .error fault =>
          (⟨empty.add (Table.ofColumns nodesName nodeColumns), true, true, true⟩, .error fault)
        | .ok nodeRows =>
          let tables := empty.add (filled nodesName nodeColumns nodeRows)
          match cellsOf frameColumns frames with
          | .error fault =>
            (⟨tables.add (Table.ofColumns framesName frameColumns), true, true, true⟩, .error fault)
          | .ok frameRows =>
            (⟨tables.add (filled framesName frameColumns frameRows), true, true, true⟩, .ok ⟨⟩)
      else (⟨empty, true, false, false⟩, .error .storeUnavailable) := by
  have hwrite : Tables.empty.write true hasRoom nodes frames =
      ((Effect.run (writeReport nodes frames) ⟨empty, true, hasRoom, false⟩).2,
        (Effect.run (writeReport nodes frames) ⟨empty, true, hasRoom, false⟩).1) := rfl
  rw [hwrite]
  unfold writeReport
  rw [run_bind, Writing.run_addRows rfl rfl rfl]
  cases hasRoom with
  | false => rfl
  | true =>
    simp only [if_true]
    cases cellsOf nodeColumns nodes with
    | error fault => rfl
    | ok nodeRows =>
      have hnone : (empty.add (filled nodesName nodeColumns nodeRows)).find? framesName = none := by
        have hname : sameName nodesName framesName = false := by decide +kernel
        simp only [find?, add, empty, List.nil_append, List.find?_singleton, filled,
          Table.ofColumns, hname, Bool.false_eq_true, if_false]
      dsimp only
      rw [Writing.run_addRows rfl hnone rfl]
      simp only [if_true]
      cases cellsOf frameColumns frames with
      | error fault => rfl
      | ok frameRows => rfl

/-- **What is written where there were no tables is the report, if the writing comes to its end.** -/
theorem isReport_of_write {hasRoom : Bool} {nodes frames : Value Number}
    (h : (Tables.empty.write true hasRoom nodes frames).2 = .ok ⟨⟩) :
    IsReport nodes frames (Tables.empty.write true hasRoom nodes frames).1.tables := by
  rw [write_empty] at h ⊢
  cases hasRoom with
  | false => cases h
  | true =>
    simp only [if_true] at h ⊢
    cases hnodes : cellsOf nodeColumns nodes with
    | error fault => simp [hnodes] at h
    | ok nodeRows =>
      cases hframes : cellsOf frameColumns frames with
      | error fault => simp [hnodes, hframes] at h
      | ok frameRows => exact ⟨nodeRows, frameRows, hnodes, hframes, rfl⟩

/-- Something is begun only if there is room for it. -/
theorem hasRoom_of_write {hasRoom : Bool} {nodes frames : Value Number}
    (h : (Tables.empty.write true hasRoom nodes frames).1.isBegun = true) : hasRoom = true := by
  cases hasRoom with
  | true => rfl
  | false =>
    rw [write_empty] at h
    cases h

end Tables
end SampledProfile
