/-
# What cached exports hold

An export that is not forced answers the path of a file that is there already, whatever the file
holds.  So an answer is worth what the last call was worth that wrote there
(`Export.exists_lastWriter`): if that call came to its end, the file holds its report and nothing else
(`Export.IsComplete`).  If it failed while it wrote, it may have left a file all the same, and later
calls answer the path of that one (`Export.answer_leftover`).

What one call does to the places of exports is said by `Export.leaves_course`, and the rest is induction on
the calls.  The calls are such that paths of tables lead to one place whichever way they are followed
(`Export.IsReady`).
-/
import Mathlib.Data.List.Induction
import SampledProfile.Proofs.Export.Course
import SampledProfile.Proofs.Store.Fresh

namespace SampledProfile
namespace Export

open Directory Effect Outcome

/-! ## 1. Reports in files -/

/-- The content of a file is a report and nothing else. -/
def IsComplete (kind : ExportKind) (rows : Rows) (content : Content) : Prop :=
  match kind with
  | .tables => ∃ tables, content = .tables tables ∧
      Tables.IsReport (listOf rows.nodes) (listOf rows.frames) tables
  | .json => ∃ text, Json.part (valueOf rows) = (text, true) ∧ content = .bytes text.toUTF8

/-- The path of an export is followed in the same way whether tables or text are written there. -/
structure IsStraight (directory : Directory) (kind : ExportKind) (path : String) : Prop where
  plain : kind = .tables → Store.IsPlain path
  place : kind = .tables → directory.at? (destination path).dropLast = some .folder →
    directory.place path = .ok (destination path)

/-- The names of what belongs to a store are not those of exports. -/
theorem IsExport.not_mem_sides {kind : ExportKind} {place other : Place} (h : IsExport kind place) :
    place ∉ Store.sides other := by
  obtain ⟨parent, stem, rfl⟩ := h
  have hends : ∀ added : String, (suffix kind).toList.getLast? ≠ added.toList.getLast? →
      added.toList ≠ [] → parent ++ [stem ++ suffix kind] ≠ Store.beside other added := by
    intro added hne hadded heq
    obtain ⟨-, hname⟩ := List.append_inj' heq rfl
    have hchars := congrArg (fun name => name.toList.getLast?) (List.singleton_inj.mp hname)
    simp only [String.toList_append] at hchars
    rw [List.getLast?_append_of_ne_nil _ hadded, List.getLast?_append_of_ne_nil] at hchars
    · exact hne hchars
    · cases kind with
      | tables => decide
      | json => decide
  simp only [Store.sides, List.mem_cons, List.not_mem_nil, or_false, not_or]
  cases kind with
  | tables => exact ⟨hends _ (by decide) (by decide), hends _ (by decide) (by decide),
      hends _ (by decide) (by decide)⟩
  | json => exact ⟨hends _ (by decide) (by decide), hends _ (by decide) (by decide),
      hends _ (by decide) (by decide)⟩

section Save

variable {directory : Directory} {request : ExportRequest} {kind : ExportKind} {path : String}

theorem of_saveText (hbase : isBase (destination path) = false) (rows : Rows) :
    Store.Touches (destination path) directory (saveText directory path rows).1 ∧
      (directory.at? (destination path).dropLast ≠ some .folder →
        (saveText directory path rows).1 = directory) ∧
      ((saveText directory path rows).2 = .ok ⟨⟩ →
        directory.place path = .ok (destination path) ∧
        directory.at? (destination path).dropLast = some .folder ∧
        ∃ content, (saveText directory path rows).1.at? (destination path) = some (.file content) ∧
          IsComplete .json rows content) := by
  unfold saveText
  rcases hpart : Json.part (valueOf rows) with ⟨text, isWhole⟩
  dsimp only
  cases hwrite : directory.write path (.bytes text.toUTF8) with
  | error fault => exact ⟨.refl _ _, fun _ => rfl, by simp⟩
  | ok left =>
    obtain ⟨place, hwritable, hleft⟩ := bind_eq_ok.mp hwrite
    obtain ⟨found, hfound, hwritable⟩ := bind_eq_ok.mp hwritable
    have hfolder : directory.at? found ≠ some .folder ∧ found = place := by
      split at hwritable
      · cases hwritable
      · rename_i hne
        exact ⟨hne, pure_eq_ok.mp hwritable⟩
    obtain ⟨hne, rfl⟩ := hfolder
    obtain rfl := pure_eq_ok.mp hleft
    obtain ⟨parent, hparent, hin⟩ := exists_place_eq hfound hne
    have hplace := eq_destination hfound
    rw [← hplace] at hbase ⊢
    have hfolder : directory.at? found.dropLast = some .folder := by
      rw [hparent, List.dropLast_concat]
      exact hin
    refine ⟨Store.touches_set _ hne, fun hnot => absurd hfolder hnot, fun hok => ?_⟩
    refine ⟨hfound, hfolder, _, at?_set_self directory _ hbase, ?_⟩
    · cases isWhole with
      | true => exact ⟨text, hpart, rfl⟩
      | false => cases hok

/-- **What is saved is a report and nothing else, if the saving comes to its end.** -/
theorem of_save (htarget : targetOf request kind = .ok path)
    (hstraight : IsStraight directory kind path)
    (hnone : kind = .tables → directory.at? (destination path) = none) (rows : Rows) :
    Store.Touches (destination path) directory (save directory path kind rows).1 ∧
      (directory.at? (destination path).dropLast ≠ some .folder →
        (save directory path kind rows).1 = directory) ∧
      ((save directory path kind rows).2 = .ok ⟨⟩ →
        directory.place path = .ok (destination path) ∧
        directory.at? (destination path).dropLast = some .folder ∧
        ∃ content, (save directory path kind rows).1.at? (destination path) = some (.file content) ∧
          IsComplete kind rows content) := by
  have hbase := (isExport_destination htarget).isBase
  cases kind with
  | json => exact of_saveText hbase rows
  | tables =>
    obtain ⟨htouches, hsame, hreport⟩ := Store.of_save (hstraight.plain rfl) (hnone rfl) hbase
      (listOf rows.nodes) (listOf rows.frames)
    refine ⟨htouches, hsame, fun hok => ?_⟩
    obtain ⟨tables, hentry, hrows⟩ := hreport hok
    have hfolder : directory.at? (destination path).dropLast = some .folder := by
      by_contra hne
      rw [hsame hne, hnone rfl] at hentry
      cases hentry
    exact ⟨hstraight.place rfl hfolder, hfolder, _, hentry, tables, rfl, hrows⟩

end Save

/-! ## 2. One call -/

/-- A request is for an export of a kind to a path. -/
def Targets (request : ExportRequest) (kind : ExportKind) (path : String) : Prop :=
  ExportKind.ofName? request.kind = some kind ∧ targetOf request kind = .ok path

theorem Targets.unique {request : ExportRequest} {kind other : ExportKind} {path found : String}
    (h : Targets request kind path) (h' : Targets request other found) :
    kind = other ∧ path = found := by
  obtain rfl := Option.some.inj (h.1.symm.trans h'.1)
  exact ⟨rfl, Except.ok.inj (h.2.symm.trans h'.2)⟩

/-- A request comes to write the rows of its model at a path: there is nothing in its way, or it is
removed. -/
structure Writes (directory : Directory) (settings : Settings) (request : ExportRequest)
    (kind : ExportKind) (path : String) (rows : Rows) : Prop where
  target : Targets request kind path
  isDue : directory.isThere path = false ∨ request.force.truthy = true
  isCleared : ∃ left, cleared directory path = .ok left
  rows : draftOf directory settings request = .ok rows

/-- A request comes to write at a place. -/
def WritesAt (directory : Directory) (settings : Settings) (request : ExportRequest)
    (place : Place) : Prop :=
  ∃ kind path rows, Writes directory settings request kind path rows ∧ destination path = place

/-- Where a request would write there is no folder, and a file only in a folder, and the path is
straight. -/
structure IsSound (directory : Directory) (request : ExportRequest) : Prop where
  straight : ∀ kind path, Targets request kind path → IsStraight directory kind path
  notFolder : ∀ kind path, Targets request kind path →
    directory.at? (destination path) ≠ some .folder
  within : ∀ kind path, Targets request kind path → ∀ content,
    directory.at? (destination path) = some (.file content) →
      directory.at? (destination path).dropLast = some .folder

/-- What one call leaves: its folders, what it does not write, and what it does. -/
structure Leaves (directory : Directory) (settings : Settings) (request : ExportRequest)
    (left : Directory) (answer : Except Fault (Option String)) : Prop where
  folders : SameFolders directory left
  /-- Where it does not write it leaves what is there, or nothing. -/
  others : ∀ kind place, IsExport kind place → ¬ WritesAt directory settings request place →
    ∀ content, left.at? place = some (.file content) →
      directory.at? place = some (.file content)
  /-- Where it writes there is a folder, and if it comes to its end there is its report. -/
  written : ∀ kind path rows, Writes directory settings request kind path rows →
    ∀ answered, answer = .ok answered → answered = some path ∧
      ∃ content, left.at? (destination path) = some (.file content) ∧ IsComplete kind rows content
  /-- A file that was not there before is in a folder. -/
  within : ∀ kind place, IsExport kind place → ∀ content,
    left.at? place = some (.file content) →
      directory.at? place = some (.file content) ∨ directory.at? place.dropLast = some .folder
  /-- What it answers is the path of a file. -/
  answered : ∀ path, answer = .ok (some path) → ∃ content, left.find path = .ok (.file content)

section Course

variable {directory left : Directory} {settings : Settings} {request : ExportRequest}
  {kind : ExportKind} {path : String}

/-- What is left when the path of an export is cleared: only its destination has changed, and for
tables there is nothing. -/
structure Clears (directory : Directory) (settings : Settings) (request : ExportRequest)
    (kind : ExportKind) (path : String) (left : Directory) : Prop where
  folders : SameFolders directory left
  less : ∀ place content, left.at? place = some (.file content) →
    directory.at? place = some (.file content)
  others : ∀ other, other ≠ destination path → left.at? other = directory.at? other
  gone : kind = .tables → left.at? (destination path) = none
  draft : draftOf left settings request = draftOf directory settings request

theorem clears_erase (settings : Settings) (htarget : Targets request kind path) {place : Place}
    (hplace : directory.place path = .ok place) {content : Content}
    (hentry : directory.at? place = some (.file content)) :
    Clears directory settings request kind path (directory.erase place) := by
  have hgone := at?_erase_self directory (isExport_of_place htarget.2 hplace).isBase
  have hmodel := modelOf_erase htarget.2 hplace hentry settings
  have hdestination := eq_destination hplace
  subst hdestination
  refine ⟨sameFolders_erase (by simp [hentry]), fun other found hother => ?_,
    fun other hne => at?_erase_of_ne directory hne, fun _ => hgone, ?_⟩
  · by_cases hsame : other = destination path
    · rw [hsame, hgone] at hother
      cases hother
    · rwa [at?_erase_of_ne directory hsame] at hother
  · rw [draftOf, hmodel, draftOf]

/-- Where nothing is found, nothing has to be cleared. -/
theorem clears_of_not_there (settings : Settings) (htarget : Targets request kind path)
    (hsound : IsSound directory request) (hthere : ¬ directory.isThere path = true) :
    Clears directory settings request kind path directory := by
  refine ⟨.refl _, fun _ _ => id, fun _ _ => rfl, fun htables => ?_, rfl⟩
  -- a file of tables would be found at the end of its path
  cases hentry : directory.at? (destination path) with
  | none => rfl
  | some entry =>
    cases entry with
    | folder => exact absurd hentry (hsound.notFolder kind path htarget)
    | file content =>
      have hplace := (hsound.straight kind path htarget).place htables
        (hsound.within kind path htarget content hentry)
      refine absurd ?_ hthere
      rw [isThere, find_eq_ok_iff.mpr ⟨_, hplace, hentry⟩]
      rfl

theorem clears_of_cleared (settings : Settings) (htarget : Targets request kind path)
    (hsound : IsSound directory request) (h : cleared directory path = .ok left) :
    Clears directory settings request kind path left := by
  unfold cleared at h
  by_cases hthere : directory.isThere path = true
  · rw [if_pos hthere] at h
    obtain ⟨place, hplace, h⟩ := bind_eq_ok.mp h
    cases hentry : directory.at? place with
    | none => rw [hentry] at h; cases h
    | some entry =>
      rw [hentry] at h
      cases entry with
      | folder => cases h
      | file content =>
        obtain rfl := pure_eq_ok.mp h
        exact clears_erase settings htarget hplace hentry
  · rw [if_neg hthere] at h
    obtain rfl : directory = left := Except.ok.inj h
    exact clears_of_not_there settings htarget hsound hthere

/-- What is at a path is a file, where there is no folder. -/
theorem exists_find_eq (hfolder : directory.at? (destination path) ≠ some .folder)
    (hthere : directory.isThere path = true) :
    ∃ content, directory.find path = .ok (.file content) := by
  unfold isThere at hthere
  cases hfind : directory.find path with
  | error fault =>
    rw [hfind] at hthere
    cases hthere
  | ok entry =>
    cases entry with
    | file content => exact ⟨content, rfl⟩
    | folder =>
      obtain ⟨place, hplace, hentry⟩ := find_eq_ok_iff.mp hfind
      rw [eq_destination hplace] at hentry
      exact absurd hentry hfolder

/-- A call that fails, or does not come to write, leaves at most less than was there. -/
theorem leaves_of_quiet {answer : Except Fault (Option String)} (hfolders : SameFolders directory left)
    (hothers : ∀ place content, left.at? place = some (.file content) →
      directory.at? place = some (.file content))
    (hquiet : ∀ kind path rows, Writes directory settings request kind path rows →
      ∀ answered, answer ≠ .ok answered)
    (hanswered : ∀ path, answer = .ok (some path) → ∃ content, left.find path = .ok (.file content)) :
    Leaves directory settings request left answer :=
  ⟨hfolders, fun _ place _ _ => hothers place, fun kind path rows hwrites answered hok =>
    absurd hok (hquiet kind path rows hwrites answered),
    fun _ place _ content hcontent => .inl (hothers place content hcontent), hanswered⟩

theorem leaves_of_error (fault : Fault) (hfolders : SameFolders directory left)
    (hothers : ∀ place content, left.at? place = some (.file content) →
      directory.at? place = some (.file content)) :
    Leaves directory settings request left (.error fault) :=
  leaves_of_quiet hfolders hothers (fun _ _ _ _ _ => by simp) (by simp)

theorem IsStraight.congr (h : IsStraight directory kind path) (hsame : SameFolders directory left) :
    IsStraight left kind path := by
  refine ⟨h.plain, fun htables hfolder => hsame.place_eq_ok_iff.mp (h.place htables ?_)⟩
  exact (hsame _).mpr hfolder

/-- A call that comes to write. -/
theorem leaves_of_writes {rows : Rows} (hsound : IsSound directory request)
    (hwrites : Writes directory settings request kind path rows)
    (hcleared : cleared directory path = .ok left) :
    Leaves directory settings request (save left path kind rows).1
      ((save left path kind rows).2.map fun _ => some path) := by
  obtain ⟨hfolders, hless, hothers, hnone, -⟩ :=
    clears_of_cleared settings hwrites.target hsound hcleared
  have hstraight := (hsound.straight kind path hwrites.target).congr hfolders
  obtain ⟨htouches, hsame, hsaved⟩ := of_save hwrites.target.2 hstraight hnone rows
  have hok : ∀ answered, (save left path kind rows).2.map (fun _ => some path) = .ok answered →
      (save left path kind rows).2 = .ok ⟨⟩ ∧ answered = some path := by
    intro answered hanswered
    obtain ⟨_, hresult, rfl⟩ := map_eq_ok.mp hanswered
    exact ⟨hresult, rfl⟩
  refine ⟨hfolders.trans htouches.folders, ?_, ?_, ?_, ?_⟩
  · intro other place hexport hnot content hcontent
    have hne : place ≠ destination path := fun heq => hnot ⟨kind, path, rows, hwrites, heq.symm⟩
    rw [htouches.others place hne hexport.not_mem_sides, hothers place hne] at hcontent
    exact hcontent
  · intro other found others hother answered hanswered
    obtain ⟨rfl, rfl⟩ := hwrites.target.unique hother.target
    obtain rfl := Except.ok.inj (hwrites.rows.symm.trans hother.rows)
    obtain ⟨hresult, rfl⟩ := hok answered hanswered
    obtain ⟨-, -, hentry⟩ := hsaved hresult
    exact ⟨rfl, hentry⟩
  · intro other place hexport content hcontent
    by_cases hne : place = destination path
    · subst hne
      by_cases hfolder : left.at? (destination path).dropLast = some .folder
      · exact .inr ((hfolders _).mpr hfolder)
      · rw [hsame hfolder] at hcontent
        exact .inl (hless _ _ hcontent)
    · rw [htouches.others place hne hexport.not_mem_sides] at hcontent
      exact .inl (hless _ _ hcontent)
  · intro found hanswered
    obtain ⟨hresult, hfound⟩ := hok _ hanswered
    obtain rfl := Option.some.inj hfound
    obtain ⟨hplace, -, content, hentry, -⟩ := hsaved hresult
    exact ⟨content, find_eq_ok_iff.mpr ⟨_, htouches.folders.place_eq_ok_iff.mp hplace, hentry⟩⟩

/-- What is answered is the path that the request is for. -/
theorem targets_of_course_eq_ok (h : (course directory settings request).2 = .ok (some path)) :
    ∃ kind, Targets request kind path := by
  unfold course at h
  cases hkind : ExportKind.ofName? request.kind with
  | none =>
    rw [hkind] at h
    cases h
  | some kind =>
    rw [hkind] at h
    dsimp only at h
    cases hpath : targetOf request kind with
    | error fault =>
      rw [hpath] at h
      cases h
    | ok target =>
      rw [hpath] at h
      dsimp only at h
      refine ⟨kind, hkind, ?_⟩
      by_cases hcached : (directory.isThere target && !request.force.truthy) = true
      · rw [if_pos hcached] at h
        rw [hpath, Option.some.inj (Except.ok.inj h)]
      · rw [if_neg hcached] at h
        cases hcleared : cleared directory target with
        | error fault =>
          rw [hcleared] at h
          cases h
        | ok left =>
          rw [hcleared] at h
          obtain ⟨_, -, hfound⟩ := map_eq_ok.mp h
          rw [hpath, Option.some.inj hfound]

/-- A call that answers with what is there leaves everything. -/
theorem leaves_cached (htarget : Targets request kind path) (hsound : IsSound directory request)
    (hthere : directory.isThere path = true) (hforce : request.force.truthy = false) :
    Leaves directory settings request directory (.ok (some path)) := by
  refine leaves_of_quiet (.refl _) (fun _ _ => id) (fun other found rows hwrites => ?_) ?_
  · obtain ⟨rfl, rfl⟩ := htarget.unique hwrites.target
    rcases hwrites.isDue with hgone | hforced
    · rw [hthere] at hgone
      cases hgone
    · rw [hforce] at hforced
      cases hforced
  · intro found hfound
    obtain rfl := Option.some.inj (Except.ok.inj hfound)
    exact exists_find_eq (hsound.notFolder kind _ htarget) hthere

/-- **One call leaves the folders, leaves what is at the places of other exports, and at its own place,
if it comes to write and to its end, a report.** -/
theorem leaves_course (hsound : IsSound directory request) :
    Leaves directory settings request (course directory settings request).1
      (course directory settings request).2 := by
  unfold course
  cases hkind : ExportKind.ofName? request.kind with
  | none =>
    refine leaves_of_quiet (.refl _) (fun _ _ => id) (fun kind path rows hwrites => ?_) (by simp)
    rw [hwrites.target.1] at hkind
    cases hkind
  | some kind =>
    dsimp only
    cases hpath : targetOf request kind with
    | error fault => exact leaves_of_error fault (.refl _) fun _ _ => id
    | ok path =>
      have htarget : Targets request kind path := ⟨hkind, hpath⟩
      dsimp only
      by_cases hcached : (directory.isThere path && !request.force.truthy) = true
      · rw [if_pos hcached]
        obtain ⟨hthere, hforce⟩ := Bool.and_eq_true_iff.mp hcached
        rw [Bool.not_eq_true'] at hforce
        exact leaves_cached htarget hsound hthere hforce
      · rw [if_neg hcached]
        cases hcleared : cleared directory path with
        | error fault => exact leaves_of_error fault (.refl _) fun _ _ => id
        | ok left =>
          have hclears := clears_of_cleared settings htarget hsound hcleared
          dsimp only
          unfold produced
          rw [hclears.draft]
          cases hrows : draftOf directory settings request with
          | error fault => exact leaves_of_error fault hclears.folders hclears.less
          | ok rows =>
            have hdue : directory.isThere path = false ∨ request.force.truthy = true := by
              cases hthere : directory.isThere path with
              | false => exact .inl rfl
              | true =>
                rw [hthere] at hcached
                simpa using hcached
            exact leaves_of_writes hsound ⟨htarget, hdue, ⟨left, hcleared⟩, hrows⟩ hcleared

end Course

/-! ## 3. Calls one after the other -/

/-- The answer to a request. -/
def answer (w : Workspace) (request : ExportRequest) : Except Fault (Option String) :=
  (Effect.run (Export.run request) w).1

/-- The workspace after some requests, of which any may have failed. -/
def after (w : Workspace) (requests : List ExportRequest) : Workspace :=
  requests.foldl (fun w request => (Effect.run (Export.run request) w).2) w

section Step

variable (w : Workspace) (requests : List ExportRequest) (request : ExportRequest)

theorem answer_eq : answer w request = (course w.directory w.settings request).2 := by
  obtain ⟨transcript, hrun⟩ := run_eq request w
  rw [answer, hrun]

theorem after_concat :
    after w (requests ++ [request]) = (Effect.run (Export.run request) (after w requests)).2 := by
  rw [after, List.foldl_append]
  rfl

theorem directory_after_concat :
    (after w (requests ++ [request])).directory =
      (course (after w requests).directory (after w requests).settings request).1 := by
  obtain ⟨transcript, hrun⟩ := run_eq request (after w requests)
  rw [after_concat, hrun]

end Step

/-- In a directory there is nothing yet where a request would write, and the path is straight. -/
structure IsReady (directory : Directory) (request : ExportRequest) : Prop where
  straight : ∀ kind path, Targets request kind path → IsStraight directory kind path
  absent : ∀ kind path, Targets request kind path → directory.at? (destination path) = none

/-- A request of some is the last that came to write at a place. -/
def LastWriter (w : Workspace) (requests : List ExportRequest) (place : Place)
    (earlier : List ExportRequest) (writer : ExportRequest) : Prop :=
  ∃ later, requests = earlier ++ writer :: later ∧
    WritesAt (after w earlier).directory (after w earlier).settings writer place ∧
    ∀ before request rest, later = before ++ request :: rest →
      ¬ WritesAt (after w (earlier ++ writer :: before)).directory
        (after w (earlier ++ writer :: before)).settings request place

/-- A content is what a request wrote at a place: the rows of its model and nothing else, and the path
was the answer. -/
def IsReportOf (w : Workspace) (request : ExportRequest) (place : Place) (content : Content) : Prop :=
  ∃ kind path rows, Writes w.directory w.settings request kind path rows ∧ destination path = place ∧
    answer w request = .ok (some path) ∧ IsComplete kind rows content

/-- All that is said of a file at the place of an export after some requests: it is in a folder, and
what the last that came to write there left, which is its report or it failed. -/
def IsLeftBy (w : Workspace) (requests : List ExportRequest) (place : Place) (content : Content) :
    Prop :=
  (after w requests).directory.at? place.dropLast = some .folder ∧
    ∃ earlier writer, LastWriter w requests place earlier writer ∧
      ((∃ fault, answer (after w earlier) writer = .error fault) ∨
        IsReportOf (after w earlier) writer place content)

/-- What holds after any number of requests: the folders are there, and every new file at the place of
an export has its writer. -/
structure Accounts (w : Workspace) (requests : List ExportRequest) : Prop where
  folders : SameFolders w.directory (after w requests).directory
  files : ∀ kind place, IsExport kind place → w.directory.at? place = none → ∀ content,
    (after w requests).directory.at? place = some (.file content) → IsLeftBy w requests place content

section Run

variable {w : Workspace} {requests : List ExportRequest} {request : ExportRequest}

theorem accounts_nil (w : Workspace) : Accounts w [] := by
  refine ⟨.refl _, fun kind place _ hnone content hcontent => ?_⟩
  have hstart : (after w []).directory = w.directory := rfl
  rw [hstart, hnone] at hcontent
  cases hcontent

theorem Accounts.isSound (h : Accounts w requests) (hready : IsReady w.directory request) :
    IsSound (after w requests).directory request := by
  refine ⟨fun kind path htarget => (hready.straight kind path htarget).congr h.folders,
    fun kind path htarget hfolder => ?_, fun kind path htarget content hcontent => ?_⟩
  · have hstart := (h.folders _).mpr hfolder
    rw [hready.absent kind path htarget] at hstart
    cases hstart
  · exact (h.files kind _ (isExport_destination htarget.2) (hready.absent kind path htarget)
      content hcontent).1

/-- The request that came to write at a place just now is the last that did. -/
theorem lastWriter_concat_self {place : Place}
    (h : WritesAt (after w requests).directory (after w requests).settings request place) :
    LastWriter w (requests ++ [request]) place requests request := by
  refine ⟨[], rfl, h, fun before other rest heq => ?_⟩
  exact absurd heq.symm (List.append_ne_nil_of_right_ne_nil _ (List.cons_ne_nil _ _))

/-- A request that does not come to write at a place leaves the last that did. -/
theorem LastWriter.concat {place : Place} {earlier : List ExportRequest} {writer : ExportRequest}
    (h : LastWriter w requests place earlier writer)
    (hnot : ¬ WritesAt (after w requests).directory (after w requests).settings request place) :
    LastWriter w (requests ++ [request]) place earlier writer := by
  obtain ⟨later, rfl, hwrites, hlater⟩ := h
  refine ⟨later ++ [request], by simp, hwrites, fun before other rest heq => ?_⟩
  rcases List.eq_nil_or_concat rest with rfl | ⟨between, last, rfl⟩
  · obtain ⟨rfl, hlast⟩ := List.append_inj' heq rfl
    obtain rfl := List.singleton_inj.mp hlast
    exact hnot
  · have hsplit : later ++ [request] = (before ++ other :: between) ++ [last] := by
      rw [heq, List.append_assoc, List.cons_append, List.concat_eq_append]
    obtain ⟨hsame, -⟩ := List.append_inj' hsplit rfl
    exact hlater before other between hsame

/-- **One more request keeps the account.** -/
theorem Accounts.concat (h : Accounts w requests) (hready : IsReady w.directory request) :
    Accounts w (requests ++ [request]) := by
  let now := after w requests
  have hleaves : Leaves now.directory now.settings request
      (course now.directory now.settings request).1 (answer now request) := by
    rw [answer_eq]
    exact leaves_course (h.isSound hready)
  have hnext := directory_after_concat w requests request
  constructor
  · rw [hnext]
    exact h.folders.trans hleaves.folders
  · intro kind place hexport hnone content hcontent
    rw [hnext] at hcontent
    have hfolder : now.directory.at? place.dropLast = some .folder := by
      rcases hleaves.within kind place hexport content hcontent with hbefore | hfolder
      · exact (h.files kind place hexport hnone content hbefore).1
      · exact hfolder
    refine ⟨by rw [hnext]; exact (hleaves.folders _).mp hfolder, ?_⟩
    by_cases hwrites : WritesAt now.directory now.settings request place
    · refine ⟨requests, request, lastWriter_concat_self hwrites, ?_⟩
      cases hanswer : answer now request with
      | error fault => exact .inl ⟨fault, rfl⟩
      | ok answered =>
        obtain ⟨other, path, rows, hwrites, rfl⟩ := hwrites
        obtain ⟨rfl, found, hfound, hcomplete⟩ :=
          hleaves.written other path rows hwrites answered hanswer
        obtain rfl := Entry.file.inj (Option.some.inj (hcontent.symm.trans hfound))
        exact .inr ⟨other, path, rows, hwrites, rfl, hanswer, hcomplete⟩
    · have hbefore := hleaves.others kind place hexport hwrites content hcontent
      obtain ⟨-, earlier, writer, hlast, hleft⟩ :=
        h.files kind place hexport hnone content hbefore
      exact ⟨earlier, writer, hlast.concat hwrites, hleft⟩

/-- **Any number of requests keeps the account.** -/
theorem accounts_after (hready : ∀ call ∈ requests, IsReady w.directory call) :
    Accounts w requests := by
  induction requests using List.reverseRecOn with
  | nil => exact accounts_nil w
  | append_singleton requests request ih =>
    have hbefore := ih fun call hcall => hready call (List.mem_append_left _ hcall)
    exact hbefore.concat (hready request (List.mem_append_right _ List.mem_cons_self))

/-- **A path that is answered is that of a file which the last call left that came to write there; if
that call did not fail, it answered the path of this file, and the file holds its report.** -/
theorem exists_lastWriter {path : String}
    (hready : ∀ call ∈ requests ++ [request], IsReady w.directory call)
    (hanswer : answer (after w requests) request = .ok (some path)) :
    ∃ content, (after w (requests ++ [request])).directory.find path = .ok (.file content) ∧
      ∃ earlier writer, LastWriter w (requests ++ [request]) (destination path) earlier writer ∧
        ((∃ fault, answer (after w earlier) writer = .error fault) ∨
          IsReportOf (after w earlier) writer (destination path) content) := by
  have hbefore := accounts_after fun call hcall => hready call (List.mem_append_left _ hcall)
  have hself := hready request (List.mem_append_right _ List.mem_cons_self)
  have hafter := accounts_after hready
  rw [answer_eq] at hanswer
  obtain ⟨content, hfind⟩ := (leaves_course (hbefore.isSound hself)).answered path hanswer
  rw [← directory_after_concat] at hfind
  refine ⟨content, hfind, ?_⟩
  obtain ⟨place, hplace, hentry⟩ := find_eq_ok_iff.mp hfind
  rw [eq_destination hplace] at hentry
  obtain ⟨kind, htarget⟩ := targets_of_course_eq_ok hanswer
  exact (hafter.files kind _ (isExport_destination htarget.2) (hself.absent kind path htarget)
    content hentry).2

end Run

/-- A request for tables of a profile. -/
def toTables (profile : Value Number) : ExportRequest :=
  ⟨.str "t.json", .null, .str "sqlite", .bool false, .bool false, .int 0, .list [profile]⟩

/-- A profile with one node below the root, of the given id. -/
def withNode (id : Nat) : Value Number :=
  .obj [("nodes", .list [.obj [("id", .nat 1), ("children", .list [.nat id])],
      .obj [("id", .nat id), ("hitCount", .nat 1)]]),
    ("samples", .list [.nat 1])]

theorem targets_toTables {profile : Value Number} {kind : ExportKind} {path : String}
    (h : Targets (toTables profile) kind path) : kind = .tables ∧ path = "t_export.sqlite" := by
  have hkind : ExportKind.ofName? (.str "sqlite") = some .tables := by decide +kernel
  have hpath : target "t.json" none .tables = "t_export.sqlite" := by decide +kernel
  exact h.unique ⟨hkind, congrArg Except.ok hpath⟩

theorem isReady_toTables (profile : Value Number) : IsReady Directory.empty (toTables profile) := by
  constructor
  · intro kind path htarget
    obtain ⟨rfl, rfl⟩ := targets_toTables htarget
    have hplain : Store.IsPlain "t_export.sqlite" := by
      unfold Store.IsPlain
      decide +kernel
    have hplace : Directory.empty.place "t_export.sqlite" = .ok (destination "t_export.sqlite") := by
      decide +kernel
    exact ⟨fun _ => hplain, fun _ _ => hplace⟩
  · intro kind path htarget
    obtain ⟨rfl, rfl⟩ := targets_toTables htarget
    decide +kernel

theorem exists_lastWriter_cached :
    let start := Workspace.start .empty
    let requests := [toTables (withNode 2), toTables (withNode 3)]
    answer (after start [toTables (withNode 2)]) (toTables (withNode 3)) =
        .ok (some "t_export.sqlite") ∧
      ∃ content, (after start requests).directory.find "t_export.sqlite" = .ok (.file content) ∧
        ∃ earlier writer, LastWriter start requests (destination "t_export.sqlite") earlier writer ∧
          ((∃ fault, answer (after start earlier) writer = .error fault) ∨
            IsReportOf (after start earlier) writer (destination "t_export.sqlite") content) := by
  have hanswer : answer (after (.start .empty) [toTables (withNode 2)]) (toTables (withNode 3)) =
      .ok (some "t_export.sqlite") := by
    decide +kernel
  have hready : ∀ call ∈ [toTables (withNode 2)] ++ [toTables (withNode 3)],
      IsReady (Workspace.start .empty).directory call := by
    intro call hcall
    rcases List.mem_cons.mp hcall with rfl | hcall
    · exact isReady_toTables _
    · obtain rfl := List.mem_singleton.mp hcall
      exact isReady_toTables _
  exact ⟨hanswer, exists_lastWriter hready hanswer⟩

/-- **What a failed export left is answered by the next one, and it is no report.** -/
theorem answer_leftover :
    let start := Workspace.start .empty
    let requests := [toTables (withNode 9223372036854775808), toTables (withNode 2)]
    answer start (toTables (withNode 9223372036854775808)) = .error .overflow ∧
      answer (after start [toTables (withNode 9223372036854775808)]) (toTables (withNode 2)) =
        .ok (some "t_export.sqlite") ∧
      ∃ content, (after start requests).directory.find "t_export.sqlite" = .ok (.file content) ∧
        ∀ kind rows, ¬ IsComplete kind rows content := by
  refine ⟨by decide +kernel, by decide +kernel,
    .tables (Tables.empty.add (.ofColumns Tables.nodesName Tables.nodeColumns)), by decide +kernel,
    fun kind rows hcomplete => ?_⟩
  cases kind with
  | tables =>
    -- the second table is missing
    obtain ⟨tables, hcontent, nodeRows, frameRows, -, -, hreport⟩ := hcomplete
    obtain rfl := Content.tables.inj hcontent
    have hcount : 1 = 2 := congrArg (fun tables => tables.tables.length) hreport
    omega
  | json =>
    obtain ⟨text, -, hcontent⟩ := hcomplete
    cases hcontent

end Export
end SampledProfile
