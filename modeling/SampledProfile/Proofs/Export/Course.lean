/-
# The course of an export

An export goes from one step to the next: where to, whether a file is there already, what to remove,
the model, its rows, and the file.  What is printed and entered into the log does not matter to any of
them, so the course of an export is a function of the directory and the settings (`Export.course`),
and `Export.run_eq` says that it is the course of the task.

`Export.modelOf` is the model that a request is about, as a directory stands.  Nothing but the file of
profiles is read for it, and that is never the file that the export writes: their last names differ
(`Export.lastName_target_ne`).  So removing the latter makes no difference (`Export.modelOf_erase`).
-/
import SampledProfile.Export
import SampledProfile.Proofs.Effect
import SampledProfile.Proofs.Paths

namespace SampledProfile
namespace Export

open Outcome

/-! ## 1. The steps of an export -/

/-- The profiles that a request is about, as a directory stands. -/
def profilesOf (directory : Directory) (request : ExportRequest) : Except Fault (Value Number) :=
  match request.profiles with
  | .null => do return .list (← ProfileFile.read directory (← requireText request.file))
  | profiles => .ok profiles

/-- The profile that a request is about, as a directory stands. -/
def entryOf (directory : Directory) (request : ExportRequest) : Except Fault (Value Number) := do
  Catalog.entryAt (← profilesOf directory request) request.index

/-- The model that a request is about, as a directory and settings stand. -/
def modelOf (directory : Directory) (settings : Settings) (request : ExportRequest) :
    Except Fault (Model Number) := do
  Model.load (← entryOf directory request) (settings.keepsNatives request.keepNatives)

/-- The rows that a request is about, as a directory and settings stand. -/
def draftOf (directory : Directory) (settings : Settings) (request : ExportRequest) :
    Except Fault Rows := do
  rowsOf (← modelOf directory settings request)

/-- The directory without anything at a path. -/
def cleared (directory : Directory) (path : String) : Except Fault Directory :=
  if directory.isThere path then directory.remove path else .ok directory

/-- The directory with the report that a request is about at a path. -/
def produced (directory : Directory) (settings : Settings) (request : ExportRequest)
    (kind : ExportKind) (path : String) : Directory × Except Fault Unit :=
  match draftOf directory settings request with
  | .error fault => (directory, .error fault)
  | .ok rows => save directory path kind rows

/-- What an export makes of a directory, and its answer. -/
def course (directory : Directory) (settings : Settings) (request : ExportRequest) :
    Directory × Except Fault (Option String) :=
  match ExportKind.ofName? request.kind with
  | none => (directory, .ok none)
  | some kind =>
    match targetOf request kind with
    | .error fault => (directory, .error fault)
    | .ok path =>
      if directory.isThere path && !request.force.truthy then (directory, .ok (some path))
      else
        match cleared directory path with
        | .error fault => (directory, .error fault)
        | .ok directory =>
          let (directory, result) := produced directory settings request kind path
          (directory, result.map fun _ => some path)

/-! ## 2. The task -/

open Effect

theorem run_profileOf (request : ExportRequest) (w : Workspace) :
    Effect.run (profileOf request) w = (entryOf w.directory request, w) := by
  unfold profileOf entryOf profilesOf Task.profiles Task.take
  dsimp only
  cases request.profiles with
  | null =>
    simp only [run_bind, run_mk, run_get]
    cases requireText request.file with
    | error fault => rfl
    | ok file =>
      simp only [ok_bind]
      cases ProfileFile.read w.directory file with
      | error fault => rfl
      | ok profiles => rfl
  | _ => rfl

/-- Loading a profile changes nothing but the log. -/
theorem run_load (profile requested : Value Number) (w : Workspace) :
    ∃ transcript, Effect.run (Task.load profile requested) w =
      (Model.load profile (w.settings.keepsNatives requested), { w with transcript }) := by
  unfold Task.load Task.note Task.take
  simp only [run_bind, run_get, run_modify, run_mk]
  exact ⟨_, rfl⟩

theorem run_produce (request : ExportRequest) (kind : ExportKind) (path : String) (w : Workspace) :
    ∃ transcript, Effect.run (produce request kind path) w =
      ((produced w.directory w.settings request kind path).2,
        { w with
          directory := (produced w.directory w.settings request kind path).1
          transcript }) := by
  unfold produce produced draftOf modelOf
  rw [run_bind, run_profileOf]
  cases entryOf w.directory request with
  | error fault => exact ⟨_, rfl⟩
  | ok profile =>
    obtain ⟨transcript, hload⟩ := run_load profile request.keepNatives w
    dsimp only
    rw [run_bind, hload, ok_bind]
    cases Model.load profile (w.settings.keepsNatives request.keepNatives) with
    | error fault => exact ⟨_, rfl⟩
    | ok model =>
      dsimp only
      rw [ok_bind]
      unfold Task.take Task.note Task.replace
      rw [run_bind, run_mk]
      cases rowsOf model with
      | error fault => exact ⟨_, rfl⟩
      | ok rows =>
        simp only [run_bind, run_get, run_modify, run_mk]
        exact ⟨_, rfl⟩

theorem run_produce_answer (request : ExportRequest) (kind : ExportKind) (path : String)
    (w : Workspace) :
    ∃ transcript, Effect.run (do produce request kind path; return some path) w =
      ((produced w.directory w.settings request kind path).2.map fun _ => some path,
        { w with
          directory := (produced w.directory w.settings request kind path).1
          transcript }) := by
  obtain ⟨transcript, hproduce⟩ := run_produce request kind path w
  refine ⟨transcript, ?_⟩
  rw [run_bind, hproduce]
  cases (produced w.directory w.settings request kind path).2 with
  | error fault => rfl
  | ok => rfl

theorem run_clear (path : String) (w : Workspace) :
    Effect.run (clear path) w =
      match w.directory.remove path with
      | .ok directory => (.ok ⟨⟩, { w with directory })
      | .error fault => (.error fault, w) := by
  unfold clear Task.take Task.replace
  simp only [run_bind, run_get, run_mk]
  cases w.directory.remove path with
  | error fault => rfl
  | ok directory => rfl

/-- **The course of an export is that of its task.** -/
theorem run_eq (request : ExportRequest) (w : Workspace) :
    ∃ transcript, Effect.run (Export.run request) w =
      ((course w.directory w.settings request).2,
        { w with
          directory := (course w.directory w.settings request).1
          transcript }) := by
  unfold Export.run course Task.printLine Task.print
  rw [run_bind, run_modify]
  dsimp only
  cases ExportKind.ofName? request.kind with
  | none => exact ⟨_, rfl⟩
  | some kind =>
    dsimp only
    unfold Task.take
    rw [run_bind, run_mk]
    cases targetOf request kind with
    | error fault => exact ⟨_, rfl⟩
    | ok path =>
      dsimp only
      rw [run_bind, run_get]
      dsimp only
      unfold cleared
      by_cases hcached : (w.directory.isThere path && !request.force.truthy) = true
      · rw [if_pos hcached, if_pos hcached]
        exact ⟨_, rfl⟩
      · rw [if_neg hcached, if_neg hcached]
        by_cases hthere : w.directory.isThere path = true
        · rw [if_pos hthere, if_pos hthere, run_bind, run_clear]
          dsimp only
          cases w.directory.remove path with
          | error fault => exact ⟨_, rfl⟩
          | ok directory => exact run_produce_answer request kind path _
        · rw [if_neg hthere, if_neg hthere]
          exact run_produce_answer request kind path _

/-! ## 3. Where to -/

theorem not_mem_suffix (kind : ExportKind) : '/' ∉ (suffix kind).toList := by
  cases kind with
  | tables => decide
  | json => decide

/-- An export is named after its profile. -/
theorem lastName_target (file : String) (folder : Option String) (kind : ExportKind) :
    Path.lastName (target file folder kind) =
      String.ofList (Path.stemOf (Path.lastNameOf file.toList)) ++ suffix kind := by
  cases folder with
  | none => exact Path.lastName_withoutSuffix_append file (not_mem_suffix kind)
  | some folder =>
    have hfile : '/' ∉ (Path.lastName file).toList := by
      rw [Path.toList_lastName]
      exact Path.not_mem_lastNameOf _
    have hname : '/' ∉ (Path.withoutSuffix (Path.lastName file) ++ suffix kind).toList := by
      rw [String.toList_append, List.mem_append]
      rintro (hmem | hmem)
      · exact Path.not_mem_withoutSuffix hfile hmem
      · exact not_mem_suffix kind hmem
    have hself : Path.lastNameOf (Path.lastName file).toList = Path.lastNameOf file.toList := by
      rw [← Path.toList_lastName, Path.lastName_of_not_mem hfile, Path.toList_lastName]
    rw [target, Path.lastName_join folder hname, ← hself,
      ← Path.lastName_withoutSuffix_append _ (not_mem_suffix kind), Path.lastName_of_not_mem hname]

/-- **An export does not have the name of its profile.** -/
theorem lastName_target_ne (file : String) (folder : Option String) (kind : ExportKind) :
    Path.lastName (target file folder kind) ≠ Path.lastName file := by
  intro heq
  have hchars := congrArg String.toList heq
  rw [lastName_target, String.toList_append, String.toList_ofList, Path.toList_lastName] at hchars
  rcases Path.eq_nil_or_dot_of_stemOf_append hchars with hnil | hdot
  · cases kind with
    | tables => exact absurd hnil (by decide)
    | json => exact absurd hnil (by decide)
  · cases kind with
    | tables => exact absurd hdot (by decide)
    | json => exact absurd hdot (by decide)

theorem targetOf_eq_ok {request : ExportRequest} {kind : ExportKind} {path : String}
    (h : targetOf request kind = .ok path) :
    ∃ file folder, requireText request.file = .ok file ∧ path = target file folder kind := by
  obtain ⟨file, hfile, h⟩ := bind_eq_ok.mp h
  split at h
  · obtain ⟨folder, -, h⟩ := bind_eq_ok.mp h
    exact ⟨file, some folder, hfile, (pure_eq_ok.mp h).symm⟩
  · exact ⟨file, none, hfile, (pure_eq_ok.mp h).symm⟩

/-- A place whose name ends like that of an export. -/
def IsExport (kind : ExportKind) (place : Place) : Prop :=
  ∃ parent stem, place = parent ++ [stem ++ suffix kind]

/-- Names that end like that of an export are longer than those of the places that are always
there. -/
theorem lt_length_append_suffix (stem : String) (kind : ExportKind) :
    4 < (stem ++ suffix kind).length := by
  have hlong : 4 < (suffix kind).length := by
    cases kind with
    | tables => decide
    | json => decide
  rw [String.length_append]
  omega

theorem IsExport.isBase {kind : ExportKind} {place : Place} (h : IsExport kind place) :
    Directory.isBase place = false := by
  obtain ⟨parent, stem, rfl⟩ := h
  rw [Bool.eq_false_iff]
  intro hbase
  have hshort := Directory.length_of_isBase hbase
  have hlong := lt_length_append_suffix stem kind
  omega

/-- The path of an export leads to a place of that name. -/
theorem isExport_destination {request : ExportRequest} {kind : ExportKind} {path : String}
    (htarget : targetOf request kind = .ok path) : IsExport kind (Directory.destination path) := by
  obtain ⟨file, folder, -, rfl⟩ := targetOf_eq_ok htarget
  obtain ⟨parent, hparent⟩ := Directory.exists_destination_eq (target file folder kind)
  have hlong := lt_length_append_suffix (.ofList (Path.stemOf (Path.lastNameOf file.toList))) kind
  refine ⟨parent, .ofList (Path.stemOf (Path.lastNameOf file.toList)), ?_⟩
  rw [hparent, lastName_target, Directory.enter_of_lt parent (by omega)]

theorem isExport_of_place {request : ExportRequest} {kind : ExportKind} {path : String}
    (htarget : targetOf request kind = .ok path) {directory : Directory} {place : Place}
    (hplace : directory.place path = .ok place) : IsExport kind place :=
  Directory.eq_destination hplace ▸ isExport_destination htarget

/-! ## 4. Exports without a model -/

section Erased

variable {directory : Directory} {place : Place} {content : Content}

/-- Where a path does not lead to a file, removing the file does not matter to reading there. -/
theorem read_erase (hfile : directory.at? place = some (.file content)) {file : String}
    (hne : directory.place file ≠ .ok place) :
    ProfileFile.read (directory.erase place) file = ProfileFile.read directory file := by
  have hfolder : directory.at? place ≠ some .folder := by simp [hfile]
  have hsame := Directory.sameFolders_erase hfolder
  unfold ProfileFile.read Directory.find
  cases hplace : directory.place file with
  | ok found =>
    have hother : found ≠ place := fun heq => hne (heq ▸ hplace)
    rw [hsame.place_eq_ok_iff.mp hplace, ok_bind, ok_bind,
      Directory.at?_erase_of_ne directory hother]
  | error fault =>
    cases herased : (directory.erase place).place file with
    | ok found => rw [hsame.place_eq_ok_iff.mpr herased] at hplace; cases hplace
    | error other => rfl

/-- **Removing what an export left makes no difference to the model it is about.** -/
theorem modelOf_erase {request : ExportRequest} {kind : ExportKind} {path : String}
    (htarget : targetOf request kind = .ok path) (hplace : directory.place path = .ok place)
    (hfile : directory.at? place = some (.file content)) (settings : Settings) :
    modelOf (directory.erase place) settings request = modelOf directory settings request := by
  obtain ⟨file, folder, htext, rfl⟩ := targetOf_eq_ok htarget
  have hne : directory.place file ≠ .ok place := by
    intro hsame
    obtain ⟨parent, hparent, -⟩ := Directory.exists_place_eq hplace (by simp [hfile])
    obtain ⟨other, hother, -⟩ := Directory.exists_place_eq hsame (by simp [hfile])
    rw [hparent] at hother
    obtain ⟨-, hname⟩ := List.append_inj' hother rfl
    exact lastName_target_ne file folder kind (List.singleton_inj.mp hname)
  have hprofiles : profilesOf (directory.erase place) request = profilesOf directory request := by
    unfold profilesOf
    rw [htext, ok_bind, ok_bind, read_erase hfile hne]
  rw [modelOf, modelOf, entryOf, entryOf, hprofiles]

end Erased

theorem find_eq_ok_iff {directory : Directory} {path : String} {entry : Entry} :
    directory.find path = .ok entry ↔
      ∃ place, directory.place path = .ok place ∧ directory.at? place = some entry := by
  unfold Directory.find
  rw [bind_eq_ok]
  refine exists_congr fun place => and_congr_right fun _ => ?_
  cases directory.at? place with
  | none => simp
  | some found => simp

/-- **A forced export without a model removes the file that was there before, and nothing else
changes.** -/
theorem run_of_modelOf_error {request : ExportRequest} {kind : ExportKind} {path : String}
    {w : Workspace} {content : Content} {fault : Fault}
    (hkind : ExportKind.ofName? request.kind = some kind)
    (htarget : targetOf request kind = .ok path) (hforce : request.force.truthy = true)
    (hfile : w.directory.find path = .ok (.file content))
    (hmodel : modelOf w.directory w.settings request = .error fault) :
    ∃ transcript place, w.directory.place path = .ok place ∧
      Effect.run (Export.run request) w =
        (.error fault, { w with directory := w.directory.erase place, transcript }) ∧
      (w.directory.erase place).find path = .error .fileNotFound ∧
      ∀ other, other ≠ place → (w.directory.erase place).at? other = w.directory.at? other := by
  obtain ⟨place, hplace, hentry⟩ := find_eq_ok_iff.mp hfile
  have hfolder : w.directory.at? place ≠ some .folder := by simp [hentry]
  have hthere : w.directory.isThere path = true := by
    rw [Directory.isThere, hfile]
    rfl
  have hremove : w.directory.remove path = .ok (w.directory.erase place) := by
    unfold Directory.remove
    rw [hplace, ok_bind, hentry]
    rfl
  have hdraft : draftOf (w.directory.erase place) w.settings request = .error fault := by
    rw [draftOf, modelOf_erase htarget hplace hentry, hmodel]
    rfl
  have hcourse : course w.directory w.settings request =
      (w.directory.erase place, .error fault) := by
    unfold course cleared produced
    rw [hkind]
    dsimp only
    rw [htarget]
    dsimp only
    rw [hthere, hforce, if_neg (by simp), if_pos rfl, hremove]
    dsimp only
    rw [hdraft]
    rfl
  obtain ⟨transcript, hrun⟩ := run_eq request w
  rw [hcourse] at hrun
  refine ⟨transcript, place, hplace, hrun, ?_, fun other => Directory.at?_erase_of_ne w.directory⟩
  have hsame := (Directory.sameFolders_erase hfolder).place_eq_ok_iff.mp hplace
  have hnone := Directory.at?_erase_self w.directory (isExport_of_place htarget hplace).isBase
  unfold Directory.find
  rw [hsame, ok_bind, hnone]
  rfl

/-- A directory with an export and without the profile it was made from, and the request to export
again. -/
def orphaned : Workspace :=
  .start (.ofFiles [("t_export.json", some (.bytes "old".toUTF8))])

def again : ExportRequest :=
  ⟨.str "t.json", .null, .str "json", .bool true, .bool false, .int 0, .null⟩

theorem run_of_modelOf_error_orphaned :
    ∃ fault transcript place, orphaned.directory.place "t_export.json" = .ok place ∧
      Effect.run (Export.run again) orphaned =
        (.error fault, { orphaned with directory := orphaned.directory.erase place, transcript }) ∧
      (orphaned.directory.erase place).find "t_export.json" = .error .fileNotFound := by
  have hfile : orphaned.directory.find "t_export.json" = .ok (.file (.bytes "old".toUTF8)) := by
    decide +kernel
  have hmodel : modelOf orphaned.directory orphaned.settings again =
      .error (.malformed (.fileMissing "t.json")) := by
    rfl
  have hkind : ExportKind.ofName? again.kind = some .json := by decide +kernel
  have htarget : targetOf again .json = .ok "t_export.json" := by decide +kernel
  obtain ⟨transcript, place, hplace, hrun, hgone, -⟩ :=
    run_of_modelOf_error hkind htarget rfl hfile hmodel
  exact ⟨_, transcript, place, hplace, hrun, hgone⟩

/-- **A forced export that fails does not keep the file that was there.** -/
theorem run_again_orphaned :
    orphaned.directory.isThere "t_export.json" = true ∧
      (Effect.run (Export.run again) orphaned).1 = .error (.malformed (.fileMissing "t.json")) ∧
      (Effect.run (Export.run again) orphaned).2.directory.isThere "t_export.json" = false := by
  decide +kernel

end Export
end SampledProfile
