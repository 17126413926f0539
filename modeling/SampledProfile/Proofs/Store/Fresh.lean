/-
# A store that is made

A report is saved to a store whose file is not there yet.  Then the file is made, what an earlier writer
left beside it is cleared away, and its tables are written.  `Store.of_save` says what has become of the
directory:

* only the file and what belongs to it beside it has changed, and folders are what they were
  (`Store.Touches`), and without a folder to make the file in nothing has changed;
* if the saving came to its end, the file holds the report and nothing else.

If it did not, there may be a file all the same.
-/
import SampledProfile.Proofs.Paths
import SampledProfile.Proofs.Tables.Report
import SampledProfile.Store.Basic

namespace SampledProfile
namespace Store

open Directory Effect Outcome

/-! ## 1. What is touched -/

/-- The places beside that of a store where something may belong to it. -/
def sides (place : Place) : List Place :=
  [beside place journalSuffix, beside place logSuffix, beside place sharedSuffix]

/-- Two directories are the same but for a store and what belongs to it, and have the same folders. -/
structure Touches (place : Place) (before after : Directory) : Prop where
  folders : SameFolders before after
  others : ∀ other, other ≠ place → other ∉ sides place → after.at? other = before.at? other

namespace Touches

variable {place : Place} {first second third : Directory}

theorem refl (place : Place) (directory : Directory) : Touches place directory directory :=
  ⟨.refl _, fun _ _ _ => rfl⟩

theorem trans (h : Touches place first second) (h' : Touches place second third) :
    Touches place first third :=
  ⟨h.folders.trans h'.folders, fun other hne hside =>
    (h'.others other hne hside).trans (h.others other hne hside)⟩

end Touches

theorem touches_set {place : Place} {directory : Directory} (content : Content)
    (h : directory.at? place ≠ some .folder) :
    Touches place directory (directory.set place (.file content)) :=
  ⟨sameFolders_set content h, fun _ hne _ => at?_set_of_ne directory _ hne⟩

theorem touches_erase {place side : Place} {directory : Directory} (hside : side ∈ sides place)
    (h : directory.at? side ≠ some .folder) : Touches place directory (directory.erase side) :=
  ⟨sameFolders_erase h, fun _ _ hother =>
    at?_erase_of_ne directory fun heq => hother (heq ▸ hside)⟩

/-- A place has a name. -/
theorem beside_ne {place : Place} {added : String} (h : added ≠ "") : beside place added ≠ place := by
  intro heq
  cases hplace : place.reverse with
  | nil =>
    obtain rfl := List.reverse_eq_nil_iff.mp hplace
    exact absurd heq (List.cons_ne_nil _ _)
  | cons name rest =>
    obtain rfl : place = rest.reverse ++ [name] := by
      rw [← List.reverse_reverse place, hplace, List.reverse_cons]
    rw [beside, List.dropLast_concat, List.getLastD_concat] at heq
    have hname := List.singleton_inj.mp (List.append_cancel_left heq)
    have hlength := congrArg String.length hname
    rw [String.length_append] at hlength
    exact h (String.length_eq_zero_iff.mp (by omega))

/-! ## 2. Opening -/

/-- The file at a place has been made and holds nothing. -/
def IsMade (place : Place) (directory : Directory) : Prop :=
  directory.at? place = some (.file (.bytes ByteArray.empty))

variable {directory : Directory} {place : Place}

theorem IsMade.not_folder (h : IsMade place directory) : directory.at? place ≠ some .folder := by
  intro hfolder
  rw [h] at hfolder
  cases hfolder

theorem run_contentOf (h : IsMade place directory) :
    Effect.run (contentOf place) directory = (.ok (.bytes ByteArray.empty), directory) := by
  have hentry : directory.at? place = some (.file (.bytes ByteArray.empty)) := h
  unfold contentOf
  rw [run_bind, run_get]
  dsimp only
  rw [hentry]
  rfl

theorem run_isEmptyAt (h : IsMade place directory) :
    Effect.run (isEmptyAt place) directory = (.ok true, directory) := by
  unfold isEmptyAt
  rw [run_bind, run_contentOf h]
  rfl

theorem not_folder_of_isWritable (h : isWritable directory place = true) :
    directory.at? place ≠ some .folder := by
  have hentry := (Bool.and_eq_true_iff.mp h).2
  simpa using hentry

/-- What stands for itself may be changed. -/
theorem isOpen_plain (path : String) : (Address.plain path).isOpen = true := by
  have haccess : (Access.create != Access.readOnly) = true := by decide
  simp [Address.isOpen, Address.plain, haccess]

theorem locking_plain_ne (path : String) : (Address.plain path).locking ≠ .beside := by
  simp [Address.plain]

/-- A journal beside a file that holds nothing is cleared away, if it is one. -/
theorem exists_run_settleJournal (path : String) (h : IsMade place directory) :
    ∃ left, Effect.run (settleJournal (Address.plain path) place) directory = (.ok ⟨⟩, left) ∧
      IsMade place left ∧ Touches place directory left := by
  unfold settleJournal
  simp only [run_bind, run_isEmptyAt h, run_get]
  cases hjournal : directory.at? (beside place journalSuffix) with
  | none => exact ⟨directory, rfl, h, .refl _ _⟩
  | some entry =>
    cases entry with
    | folder => exact ⟨directory, rfl, h, .refl _ _⟩
    | file content =>
      dsimp only
      cases firstByte? content with
      | none => exact ⟨directory, rfl, h, .refl _ _⟩
      | some first =>
        refine ⟨directory.erase (beside place journalSuffix), ?_, ?_, ?_⟩
        · simp only [if_neg (locking_plain_ne path), isOpen_plain, if_true]
          rfl
        · rw [IsMade, at?_erase_of_ne directory (beside_ne (by decide)).symm]
          exact h
        · exact touches_erase (by simp [sides]) (by simp [hjournal])

/-- What stands beside a file that holds nothing is cleared away, or in the way. -/
theorem exists_run_settle (path : String) (h : IsMade place directory) :
    ∃ result left, Effect.run (settle (Address.plain path) place) directory = (result, left) ∧
      IsMade place left ∧ Touches place directory left ∧ (∀ hadLog, result = .ok hadLog →
        hadLog = false) := by
  obtain ⟨left, hsettle, hmade, htouches⟩ := exists_run_settleJournal path h
  unfold settle
  simp only [run_bind, hsettle, run_get]
  cases hlog : hasLog left (beside place logSuffix) with
  | false =>
    refine ⟨_, _, rfl, hmade, htouches, ?_⟩
    rintro hadLog ⟨⟩
    rfl
  | true =>
    simp only [Bool.not_true, Bool.false_eq_true, if_false, run_bind, run_isEmptyAt hmade, if_true,
      run_get]
    cases hwritable : isWritable left (beside place logSuffix) with
    | false =>
      refine ⟨_, _, rfl, hmade, htouches, ?_⟩
      rintro hadLog ⟨⟩
    | true =>
      refine ⟨_, _, rfl, ?_, htouches.trans ?_, ?_⟩
      · rw [IsMade, at?_erase_of_ne left (beside_ne (by decide)).symm]
        exact hmade
      · exact touches_erase (by simp [sides]) (not_folder_of_isWritable hwritable)
      · rintro hadLog ⟨⟩
        rfl

theorem run_makeFile (path : String) (hnone : directory.at? place = none) :
    Effect.run (makeFile (Address.plain path) place) directory =
      if directory.at? place.dropLast = some .folder then
        (.ok ⟨⟩, directory.set place (.file (.bytes ByteArray.empty)))
      else (.error .storeUnavailable, directory) := by
  unfold makeFile
  rw [run_bind, run_get]
  dsimp only
  rw [hnone]
  by_cases hfolder : directory.at? place.dropLast = some .folder
  · rw [if_pos hfolder, if_pos (by simp [hfolder, Address.plain])]
    rfl
  · rw [if_neg hfolder, if_neg (by simp [hfolder])]
    rfl

/-- **A store that is made has no tables, if it can be opened.** -/
theorem exists_run_openAt (path : String) (hnone : directory.at? place = none)
    (hbase : isBase place = false) :
    ∃ result left, Effect.run (openAt (Address.plain path) place) directory = (result, left) ∧
      Touches place directory left ∧
      (directory.at? place.dropLast ≠ some .folder → left = directory) ∧
      ∀ store, result = .ok store → IsMade place left ∧
        directory.at? place.dropLast = some .folder ∧ ∃ hasRoom,
        store = ⟨some place, Tables.empty, false, true, hasRoom⟩ ∧
        (hasRoom = true → left.at? (beside place journalSuffix) ≠ some .folder) := by
  unfold openAt
  rw [run_bind, run_makeFile path hnone]
  by_cases hfolder : directory.at? place.dropLast = some .folder
  · have hmade : IsMade place (directory.set place (.file (.bytes ByteArray.empty))) :=
      at?_set_self directory _ hbase
    obtain ⟨result, left, hsettle, hleft, htouches, hlog⟩ := exists_run_settle path hmade
    have hset : Touches place directory (directory.set place (.file (.bytes ByteArray.empty))) :=
      touches_set _ (by simp [hnone])
    have hall := hset.trans htouches
    rw [if_pos hfolder]
    simp only [Address.plain] at hsettle ⊢
    simp only [reduceCtorEq, if_false, Bool.false_eq_true, run_bind, hsettle]
    cases result with
    | error fault => exact ⟨_, _, rfl, hall, fun hne => absurd hfolder hne, by simp⟩
    | ok hadLog =>
      obtain rfl := hlog hadLog rfl
      have hversions : versionsOf (.bytes ByteArray.empty) = .ok (1, 1) := rfl
      have htables : tablesOf (.bytes ByteArray.empty) = .ok Tables.empty := rfl
      simp only [run_contentOf hleft, hversions, htables, take, run_mk]
      refine ⟨_, _, rfl, hall, fun hne => absurd hfolder hne, ?_⟩
      intro store hstore
      cases hstore
      have hopen := isOpen_plain path
      rw [Address.plain] at hopen
      refine ⟨hleft, hfolder, isWritable left (beside place journalSuffix), ?_, not_folder_of_isWritable⟩
      rw [hopen]
      rfl
  · rw [if_neg hfolder]
    exact ⟨_, _, rfl, .refl _ _, fun _ => rfl, by simp⟩

/-! ## 3. Saving -/

theorem eq_of_resolve : ∀ {names : List String} {place found : Place},
    resolve directory place names = .ok found → found = names.foldl enter place
  | [], _, _, h => (Except.ok.inj h).symm
  | name :: rest, place, found, h => by
    unfold resolve at h
    dsimp only at h
    split at h
    · rw [eq_of_resolve h, List.foldl_cons]
    · cases h

/-- A store is found where its path leads to if there are folders on the way. -/
theorem eq_of_placeOf {path : String} (h : placeOf directory path = .ok place) :
    place = destination path := by
  obtain ⟨found, hfound, h⟩ := bind_eq_ok.mp h
  split at h
  · rw [← pure_eq_ok.mp h]
    exact eq_of_resolve hfound
  · cases h

/-- A path of a store that stands for itself, and for a file. -/
def IsPlain (path : String) : Prop :=
  Address.ofPath path = .ok (.plain path) ∧ (Address.plain path).isPrivate = false

/-- A store that is kept holds its new tables. -/
theorem exists_run_keep (hmade : IsMade place directory) (hbase : isBase place = false)
    (hasRoom : Bool) (draft : Tables.Draft)
    (hroom : draft.isBegun = true → directory.at? (beside place journalSuffix) ≠ some .folder) :
    ∃ left, Effect.run (keep ⟨some place, Tables.empty, false, true, hasRoom⟩ draft) directory =
        (.ok ⟨⟩, left) ∧ Touches place directory left ∧
      (draft.tables ≠ Tables.empty → left.at? place = some (.file (.tables draft.tables))) := by
  let finish : Work Unit :=
    if draft.tables != Tables.empty then
      modify fun directory => directory.set place (.file (.tables draft.tables))
    else pure ⟨⟩
  -- first the journal is cleared away, if there may be one
  obtain ⟨left, hkeep, htouches, hleft⟩ : ∃ left,
      Effect.run (keep ⟨some place, Tables.empty, false, true, hasRoom⟩ draft) directory =
        Effect.run finish left ∧ Touches place directory left ∧ IsMade place left := by
    cases hbegun : draft.isBegun with
    | false =>
      refine ⟨directory, ?_, .refl _ _, hmade⟩
      simp [keep, hbegun, finish]
    | true =>
      refine ⟨directory.erase (beside place journalSuffix), ?_,
        touches_erase (by simp [sides]) (hroom hbegun), ?_⟩
      · simp only [keep, hbegun, clear, Bool.not_false, Bool.and_self, if_true, run_bind, run_modify]
        rfl
      · rw [IsMade, at?_erase_of_ne directory (beside_ne (by decide)).symm]
        exact hmade
  rw [hkeep]
  by_cases hsame : draft.tables = Tables.empty
  · refine ⟨left, ?_, htouches, fun hne => absurd hsame hne⟩
    simp [finish, hsame]
  · refine ⟨left.set place (.file (.tables draft.tables)), ?_,
      htouches.trans (touches_set _ hleft.not_folder), fun _ => at?_set_self left _ hbase⟩
    simp [finish, hsame]

theorem exists_run_openPath {path : String} (hplain : IsPlain path)
    (hnone : directory.at? (destination path) = none) (hbase : isBase (destination path) = false) :
    ∃ result left, Effect.run (openPath path) directory = (result, left) ∧
      Touches (destination path) directory left ∧
      (directory.at? (destination path).dropLast ≠ some .folder → left = directory) ∧
      ∀ store, result = .ok store → IsMade (destination path) left ∧
        directory.at? (destination path).dropLast = some .folder ∧ ∃ hasRoom,
        store = ⟨some (destination path), Tables.empty, false, true, hasRoom⟩ ∧
        (hasRoom = true → left.at? (beside (destination path) journalSuffix) ≠ some .folder) := by
  unfold openPath take
  rw [run_bind, run_mk]
  cases checkPath path with
  | error fault => exact ⟨_, _, rfl, .refl _ _, fun _ => rfl, by simp⟩
  | ok _ =>
    dsimp only
    rw [run_bind, run_mk, hplain.1]
    dsimp only
    rw [hplain.2, if_neg Bool.false_ne_true, run_bind, run_get]
    dsimp only
    rw [run_bind, run_mk]
    cases hplace : placeOf directory (Address.plain path).path with
    | error fault => exact ⟨_, _, rfl, .refl _ _, fun _ => rfl, by simp⟩
    | ok place =>
      obtain rfl := eq_of_placeOf hplace
      exact exists_run_openAt path hnone hbase

theorem not_isReport_empty {nodes frames : Value Number} {tables : Tables}
    (h : Tables.IsReport nodes frames tables) : tables ≠ Tables.empty := by
  obtain ⟨nodeRows, frameRows, -, -, rfl⟩ := h
  intro heq
  cases congrArg Tables.tables heq

/-- **A report that is saved where there was no store is in a store of its own, and nothing else has
changed.** -/
theorem of_save {path : String} (hplain : IsPlain path)
    (hnone : directory.at? (destination path) = none) (hbase : isBase (destination path) = false)
    (nodes frames : Value Number) :
    Touches (destination path) directory (save directory path nodes frames).1 ∧
      (directory.at? (destination path).dropLast ≠ some .folder →
        (save directory path nodes frames).1 = directory) ∧
      ((save directory path nodes frames).2 = .ok ⟨⟩ →
        ∃ tables, (save directory path nodes frames).1.at? (destination path) =
            some (.file (.tables tables)) ∧ Tables.IsReport nodes frames tables) := by
  have hsave : save directory path nodes frames =
      ((Effect.run (add path nodes frames) directory).2,
        (Effect.run (add path nodes frames) directory).1) := rfl
  obtain ⟨result, left, hopen, htouches, hsame, hstore⟩ :=
    exists_run_openPath hplain hnone hbase
  rw [hsave]
  unfold add
  rw [run_bind, hopen]
  cases result with
  | error fault => exact ⟨htouches, hsame, by simp⟩
  | ok store =>
    obtain ⟨hmade, hfolder, hasRoom, rfl, hroom⟩ := hstore store rfl
    let written := Tables.empty.write true hasRoom nodes frames
    obtain ⟨after, hkeep, htouched, hkept⟩ := exists_run_keep hmade hbase hasRoom written.1
      fun hbegun => hroom (Tables.hasRoom_of_write hbegun)
    dsimp only
    rw [run_bind, hkeep]
    unfold take
    dsimp only
    rw [run_mk]
    refine ⟨htouches.trans htouched, fun hne => absurd hfolder hne, fun hok => ?_⟩
    have hreport := Tables.isReport_of_write hok
    exact ⟨_, hkept (not_isReport_empty hreport), hreport⟩

end Store
end SampledProfile
