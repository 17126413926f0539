/-
# Last names, and the places that paths lead to

* A path is split at its slashes, and the last part is its last name (`Path.exists_names_eq`).  What is
  written behind the stem of a last name, or behind a name in a folder, becomes part of the last name.
* A path leads to a place if everything on the way is a folder (`Directory.follow_eq_ok_iff`), and to
  which place does not depend on the directory: each name is entered in turn.  So directories with the
  same folders have the same places (`Directory.SameFolders.place_eq_ok_iff`).
* Wherever a path leads, there are folders above (`Directory.Within`).
-/
import SampledProfile.Directory
import SampledProfile.Proofs.Outcome

namespace SampledProfile

open Outcome

/-! ## 1. Last names -/

namespace Path

theorem toList_lastName (path : String) : (lastName path).toList = lastNameOf path.toList :=
  String.toList_ofList

theorem not_mem_lastNameOf (cs : List Char) : '/' ∉ lastNameOf cs := by
  intro hmem
  rw [lastNameOf, List.mem_reverse] at hmem
  have hpass := List.all_takeWhile (p := fun c : Char => c != '/') (l := cs.reverse)
  have := List.all_eq_true.mp hpass _ hmem
  simp at this

/-- A name behind something else belongs to the last name. -/
theorem lastNameOf_append (before : List Char) {name : List Char} (h : '/' ∉ name) :
    lastNameOf (before ++ name) = lastNameOf before ++ name := by
  have hpass : ∀ c ∈ name.reverse, (c != '/') = true := by
    intro c hc
    have hne : c ≠ '/' := fun heq => h (heq ▸ List.mem_reverse.mp hc)
    simpa using hne
  rw [lastNameOf, List.reverse_append, List.takeWhile_append_of_pos hpass, List.reverse_append,
    List.reverse_reverse, lastNameOf]

/-- What stands before a slash does not belong to the last name. -/
theorem lastNameOf_append_slash (before cs : List Char) :
    lastNameOf (before ++ '/' :: cs) = lastNameOf cs := by
  unfold lastNameOf
  rw [List.reverse_append, List.reverse_cons, List.append_assoc, List.takeWhile_append]
  split
  · rename_i hlength
    have hall : List.takeWhile (fun c : Char => c != '/') cs.reverse = cs.reverse :=
      (List.takeWhile_prefix _).eq_of_length hlength
    rw [hall]
    simp
  · rfl

/-- A path is what stands before its last name, which ends with a slash if it is anything, and the
last name. -/
theorem eq_append_lastNameOf (cs : List Char) :
    ∃ before, cs = before ++ lastNameOf cs ∧ lastNameOf before = [] := by
  refine ⟨(cs.reverse.dropWhile (· != '/')).reverse, ?_, ?_⟩
  · rw [lastNameOf, ← List.reverse_append, List.takeWhile_append_dropWhile, List.reverse_reverse]
  · rw [lastNameOf, List.reverse_reverse]
    cases hdrop : cs.reverse.dropWhile (· != '/') with
    | nil => rfl
    | cons c rest =>
      have hslash : (c != '/') = false := by
        have := List.head?_dropWhile_not (fun c : Char => c != '/') cs.reverse
        rw [hdrop] at this
        simpa using this
      rw [List.takeWhile_cons, hslash]
      rfl

theorem splitSlashes_ne_nil (cs : List Char) : splitSlashes cs ≠ [] := by
  cases cs with
  | nil => exact List.cons_ne_nil _ _
  | cons c rest =>
    unfold splitSlashes
    split
    · exact List.cons_ne_nil _ _
    · split
      · exact List.cons_ne_nil _ _
      · exact List.cons_ne_nil _ _

/-- Without a slash there is one part only. -/
theorem splitSlashes_of_not_mem : ∀ {cs : List Char}, '/' ∉ cs → splitSlashes cs = [cs]
  | [], _ => rfl
  | c :: rest, h => by
    have hc : c ≠ '/' := fun heq => h (heq ▸ List.mem_cons_self)
    have hrest := splitSlashes_of_not_mem fun hmem => h (List.mem_cons_of_mem _ hmem)
    rw [splitSlashes, if_neg hc, hrest]

theorem splitSlashes_append_slash : ∀ (before cs : List Char),
    splitSlashes (before ++ '/' :: cs) = splitSlashes before ++ splitSlashes cs
  | [], cs => by simp [splitSlashes]
  | c :: before, cs => by
    rw [List.cons_append, splitSlashes, splitSlashes_append_slash before cs]
    conv => rhs; rw [splitSlashes]
    split
    · rfl
    · cases hsplit : splitSlashes before with
      | nil => exact absurd hsplit (splitSlashes_ne_nil before)
      | cons name names => rfl

/-- **The last part of a path is its last name.** -/
theorem exists_names_eq (path : String) : ∃ before, names path = before ++ [lastName path] := by
  obtain ⟨before, heq, hlast⟩ := eq_append_lastNameOf path.toList
  have hname := not_mem_lastNameOf path.toList
  cases hrev : before.reverse with
  | nil =>
    obtain rfl := List.reverse_eq_nil_iff.mp hrev
    rw [List.nil_append] at heq
    refine ⟨[], ?_⟩
    rw [names, heq, splitSlashes_of_not_mem hname, lastName]
    rfl
  | cons c rest =>
    -- what stands before the last name ends with a slash
    have hbefore : before = rest.reverse ++ [c] := by
      rw [← List.reverse_reverse before, hrev, List.reverse_cons]
    have hslash : c = '/' := by
      by_contra hne
      rw [lastNameOf, hrev, List.takeWhile_cons, if_pos (by simpa using hne)] at hlast
      simp at hlast
    refine ⟨(splitSlashes rest.reverse).map String.ofList, ?_⟩
    rw [names, heq, hbefore, hslash, List.append_assoc, List.singleton_append,
      splitSlashes_append_slash, splitSlashes_of_not_mem hname, List.map_append, lastName]
    rfl

theorem not_mem_stemOf {name : List Char} (h : '/' ∉ name) : '/' ∉ stemOf name := by
  unfold stemOf
  dsimp only
  split
  · exact h
  · exact fun hmem => h (List.mem_of_mem_take hmem)

/-- What stands behind the stem of a name begins with a dot, if there is anything. -/
theorem eq_nil_or_dot_of_stemOf_append {name rest : List Char} (h : stemOf name ++ rest = name) :
    rest = [] ∨ rest.head? = some '.' := by
  unfold stemOf at h
  dsimp only at h
  split at h
  · exact .inl (List.append_right_eq_self.mp h)
  · rename_i hstem
    refine .inr ?_
    have hsplit := List.takeWhile_append_dropWhile (p := fun c : Char => c != '.') (l := name.reverse)
    cases hdrop : name.reverse.dropWhile (· != '.') with
    | nil =>
      rw [hdrop, List.append_nil] at hsplit
      simp [hsplit] at hstem
    | cons c before =>
      have hdot : c = '.' := by
        have := List.head?_dropWhile_not (fun c : Char => c != '.') name.reverse
        rw [hdrop] at this
        simpa using this
      let ending := name.reverse.takeWhile (· != '.')
      have hname : name = before.reverse ++ '.' :: ending.reverse := by
        rw [hdrop] at hsplit
        rw [← List.reverse_reverse name, ← hsplit, hdot]
        simp [ending]
      have hcount : name.length - (ending.length + 1) = before.reverse.length := by
        have := congrArg List.length hname
        simp only [List.length_append, List.length_cons, List.length_reverse] at this
        rw [List.length_reverse]
        omega
      have htake : name.take (name.length - (ending.length + 1)) = before.reverse := by
        rw [hcount]
        conv => lhs; rw [hname]
        exact List.take_left' rfl
      rw [htake] at h
      rw [hname] at h
      rw [List.append_cancel_left h]
      rfl

/-- The last name without its suffix is the stem of the last name. -/
theorem lastName_withoutSuffix_append (path : String) {added : String} (h : '/' ∉ added.toList) :
    lastName (withoutSuffix path ++ added) =
      String.ofList (stemOf (lastNameOf path.toList)) ++ added := by
  obtain ⟨before, heq, hlast⟩ := eq_append_lastNameOf path.toList
  have hlength : path.toList.length - (lastNameOf path.toList).length = before.length := by
    have := congrArg List.length heq
    rw [List.length_append] at this
    omega
  have htake : path.toList.take before.length = before := by
    conv => lhs; rw [heq]
    rw [List.take_left']
    rfl
  have hstem : '/' ∉ stemOf (lastNameOf path.toList) ++ added.toList := by
    rw [List.mem_append]
    rintro (hmem | hmem)
    · exact not_mem_stemOf (not_mem_lastNameOf _) hmem
    · exact h hmem
  rw [lastName, withoutSuffix]
  rw [hlength, htake, String.toList_append, String.toList_ofList, List.append_assoc,
    lastNameOf_append before hstem, hlast, List.nil_append, String.ofList_append,
    String.ofList_toList]

theorem lastName_of_not_mem {name : String} (h : '/' ∉ name.toList) : lastName name = name := by
  have hname : lastNameOf name.toList = name.toList := by
    rw [← List.nil_append name.toList, lastNameOf_append [] h]
    rfl
  rw [lastName, hname, String.ofList_toList]

theorem not_mem_withoutSuffix {name : String} (h : '/' ∉ name.toList) :
    '/' ∉ (withoutSuffix name).toList := by
  rw [withoutSuffix, String.toList_ofList, List.mem_append]
  rintro (hmem | hmem)
  · exact h (List.mem_of_mem_take hmem)
  · exact not_mem_stemOf (not_mem_lastNameOf _) hmem

/-- A name in a folder is the last name. -/
theorem lastName_join (folder : String) {name : String} (h : '/' ∉ name.toList) :
    lastName (join folder name) = name := by
  have hself := lastName_of_not_mem h
  unfold join
  split
  · exact hself
  · split
    · rename_i hend
      obtain ⟨before, hbefore⟩ := List.getLast?_eq_some_iff.mp hend
      rw [lastName, String.toList_append, hbefore, List.append_assoc, List.singleton_append,
        lastNameOf_append_slash]
      exact hself
    · rw [lastName, String.toList_append, String.toList_append, List.append_assoc]
      exact (congrArg String.ofList (lastNameOf_append_slash _ _)).trans hself

end Path

/-! ## 2. Following names -/

namespace Directory

variable {directory other : Directory}

/-- The place that a path leads to if there are folders on the way. -/
def destination (path : String) : Place := (Path.names path).foldl enter (startOf path)

/-- The last name of a path is entered last. -/
theorem exists_destination_eq (path : String) :
    ∃ parent, destination path = enter parent (Path.lastName path) := by
  obtain ⟨before, hnames⟩ := Path.exists_names_eq path
  refine ⟨before.foldl enter (startOf path), ?_⟩
  rw [destination, hnames, List.foldl_append]
  rfl

/-- A name that is longer than any way up is a place of its own. -/
theorem enter_of_lt (parent : Place) {name : String} (h : 2 < name.length) :
    enter parent name = parent ++ [name] := by
  have hne : ∀ short : String, short.length ≤ 2 → name ≠ short := by
    rintro short hshort rfl
    omega
  unfold enter
  rw [if_neg, if_neg (hne ".." (by decide))]
  rintro (hempty | hdot)
  · exact hne "" (by decide) hempty
  · exact hne "." (by decide) hdot

/-- Names are followed through folders only. -/
theorem follow_eq_ok_iff : ∀ {names : List String} {place last : Place},
    directory.follow place names = .ok last ↔
      names.foldl enter place = last ∧ (∀ name ∈ names, name.utf8ByteSize ≤ longestName) ∧
        ∀ before, before <+: names → before ≠ names →
          directory.at? (before.foldl enter place) = some .folder
  | [], place, last => by
    simp only [follow, Except.ok.injEq, List.foldl_nil, List.not_mem_nil, false_implies,
      implies_true, true_and, List.prefix_nil]
    exact ⟨fun h => ⟨h, fun before hnil hne => absurd hnil hne⟩, fun h => h.1⟩
  | name :: rest, place, last => by
    have hrest := @follow_eq_ok_iff rest (enter place name) last
    constructor
    · intro h
      rw [follow] at h
      split at h
      · cases h
      · cases h
      · rename_i hfolder
        split at h
        · cases h
        · rename_i hsize
          obtain ⟨hlast, hsizes, hfolders⟩ := hrest.mp h
          refine ⟨hlast, List.forall_mem_cons.mpr ⟨Nat.le_of_not_lt hsize, hsizes⟩, ?_⟩
          intro before hbegins hne
          cases before with
          | nil => exact hfolder
          | cons first before =>
            obtain ⟨rfl, hbefore⟩ := List.cons_prefix_cons.mp hbegins
            exact hfolders before hbefore fun heq => hne (heq ▸ rfl)
    · rintro ⟨hlast, hsizes, hfolders⟩
      obtain ⟨hsize, hsizes⟩ := List.forall_mem_cons.mp hsizes
      have hfolder : directory.at? place = some .folder :=
        hfolders [] (List.nil_prefix) (List.cons_ne_nil _ _).symm
      rw [follow, hfolder]
      dsimp only
      rw [if_neg (Nat.not_lt.mpr hsize)]
      refine hrest.mpr ⟨hlast, hsizes, fun before hbegins hne => ?_⟩
      exact hfolders (name :: before) (List.cons_prefix_cons.mpr ⟨rfl, hbegins⟩)
        fun heq => hne (List.cons.inj heq).2

/-- A path leads to its destination if it leads anywhere. -/
theorem place_eq_ok_iff {path : String} {place : Place} :
    directory.place path = .ok place ↔
      checkPath path = .ok () ∧ path.isEmpty = false ∧ path.utf8ByteSize ≤ longestPath ∧
        directory.follow (startOf path) (Path.names path) = .ok place := by
  simp only [Directory.place, bind_eq_ok, check_eq_ok, Bool.not_eq_true, Nat.not_lt]
  constructor
  · rintro ⟨⟨⟩, hcheck, hrest⟩
    exact ⟨hcheck, hrest⟩
  · rintro ⟨hcheck, hrest⟩
    exact ⟨⟨⟩, hcheck, hrest⟩

theorem eq_destination {path : String} {place : Place} (h : directory.place path = .ok place) :
    place = destination path :=
  (follow_eq_ok_iff.mp (place_eq_ok_iff.mp h).2.2.2).1.symm

/-! ## 3. Folders -/

/-- Both directories have the same folders. -/
def SameFolders (directory other : Directory) : Prop :=
  ∀ place, directory.at? place = some .folder ↔ other.at? place = some .folder

namespace SameFolders

theorem refl (directory : Directory) : SameFolders directory directory := fun _ => Iff.rfl

theorem trans {third : Directory} (h : SameFolders directory other) (h' : SameFolders other third) :
    SameFolders directory third := fun place => (h place).trans (h' place)

theorem follow_eq_ok_iff (h : SameFolders directory other) {names : List String}
    {place last : Place} :
    directory.follow place names = .ok last ↔ other.follow place names = .ok last := by
  rw [Directory.follow_eq_ok_iff, Directory.follow_eq_ok_iff]
  refine and_congr_right fun _ => and_congr_right fun _ => ?_
  exact forall_congr' fun before => forall_congr' fun _ => forall_congr' fun _ => h _

/-- Where a path leads depends on the folders only. -/
theorem place_eq_ok_iff (h : SameFolders directory other) {path : String} {place : Place} :
    directory.place path = .ok place ↔ other.place path = .ok place := by
  rw [Directory.place_eq_ok_iff, Directory.place_eq_ok_iff, h.follow_eq_ok_iff]

end SameFolders

/-- Putting a file where there is no folder leaves the folders. -/
theorem sameFolders_set {place : Place} (content : Content)
    (h : directory.at? place ≠ some .folder) :
    SameFolders directory (directory.set place (.file content)) := by
  intro entered
  by_cases hplace : entered = place
  · subst hplace
    cases hbase : isBase entered with
    | false => simp [at?_set_self directory _ hbase, h]
    | true =>
      obtain ⟨entry, hentry⟩ := Option.isSome_iff_exists.mp hbase
      simp [at?, hentry]
  · rw [at?_set_of_ne directory _ hplace]

/-- Clearing a place where there is no folder leaves the folders. -/
theorem sameFolders_erase {place : Place} (h : directory.at? place ≠ some .folder) :
    SameFolders directory (directory.erase place) := by
  intro entered
  by_cases hplace : entered = place
  · subst hplace
    cases hbase : isBase entered with
    | false => simp [at?_erase_self directory hbase, h]
    | true =>
      obtain ⟨entry, hentry⟩ := Option.isSome_iff_exists.mp hbase
      simp [at?, hentry]
  · rw [at?_erase_of_ne directory hplace]

/-- The places at which the same always stands have short names. -/
theorem length_of_isBase {parent : Place} {name : String} (h : isBase (parent ++ [name]) = true) :
    name.length ≤ 4 := by
  obtain ⟨entry, hentry⟩ := Option.isSome_iff_exists.mp h
  unfold base? at hentry
  split at hentry
  · rename_i hall
    have hback := List.all_eq_true.mp hall name (List.mem_append_right _ List.mem_cons_self)
    rw [eq_of_beq hback]
    decide
  · have hlast : ∀ {place : Place}, parent ++ [name] = place → place.getLast? = some name := by
      rintro _ rfl
      exact List.getLast?_concat
    split at hentry
    · rename_i hplace
      rw [← Option.some.inj (hlast hplace)]
      decide
    · rename_i top hplace
      have hname : top = name := Option.some.inj (hlast hplace)
      split at hentry
      · rename_i htop
        rw [← hname]
        have hshort : ∀ folder ∈ topFolders, folder.length ≤ 4 := by decide
        exact hshort top (List.contains_iff_mem.mp htop)
      · cases hentry
    · rename_i hplace
      rw [← Option.some.inj (hlast hplace)]
      decide
    · cases hentry

/-- There are folders everywhere above the place. -/
def Within (directory : Directory) (place : Place) : Prop :=
  ∀ count < place.length, directory.at? (place.take count) = some .folder

theorem at?_of_all_back {place : Place} (h : place.all (· == "..") = true) :
    directory.at? place = some .folder := by
  simp [at?, base?, h]

/-- One step back from a folder is a folder. -/
theorem at?_back {place : Place} (hwithin : Within directory place)
    (hfolder : directory.at? place = some .folder) : directory.at? (back place) = some .folder := by
  unfold back
  split
  · exact hfolder
  · split
    · rename_i hall
      exact at?_of_all_back (by simp [hall])
    · rename_i hback
      have hne : place ≠ [] := fun hnil => hback (hnil ▸ rfl)
      rw [List.dropLast_eq_take]
      exact hwithin _ (by have := List.length_pos_of_ne_nil hne; omega)

theorem within_enter {place : Place} (hwithin : Within directory place)
    (hfolder : directory.at? place = some .folder) (name : String) :
    Within directory (enter place name) := by
  unfold enter
  split
  · exact hwithin
  · split
    · unfold back
      split
      · exact hwithin
      · split
        · rename_i hall
          intro count hcount
          refine at?_of_all_back (List.all_eq_true.mpr fun entered hentered => ?_)
          have hmem := List.mem_of_mem_take hentered
          rw [List.mem_append, List.mem_singleton] at hmem
          rcases hmem with hmem | rfl
          · exact List.all_eq_true.mp hall _ hmem
          · rfl
        · intro count hcount
          rw [List.length_dropLast] at hcount
          rw [List.dropLast_eq_take, List.take_take, Nat.min_eq_left (by omega)]
          exact hwithin count (by omega)
    · intro count hcount
      rw [List.length_append, List.length_singleton] at hcount
      by_cases hlast : count = place.length
      · rw [hlast, List.take_left' rfl]
        exact hfolder
      · rw [List.take_append_of_le_length (by omega)]
        exact hwithin count (by omega)

theorem within_of_follow : ∀ {names : List String} {place last : Place},
    Within directory place → directory.follow place names = .ok last → Within directory last
  | [], place, last, hwithin, h => by
    obtain rfl : place = last := Except.ok.inj h
    exact hwithin
  | name :: rest, place, last, hwithin, h => by
    rw [follow] at h
    split at h
    · cases h
    · cases h
    · rename_i hfolder
      split at h
      · cases h
      · exact within_of_follow (within_enter hwithin hfolder name) h

theorem within_startOf (path : String) : Within directory (startOf path) := by
  unfold startOf
  split
  · intro count hcount
    obtain rfl : count = 0 := by simpa using hcount
    exact at?_of_all_back rfl
  · intro count hcount
    simp at hcount

/-- **A path that leads to anything but a folder leads to its last name in a folder.** -/
theorem exists_place_eq {path : String} {place : Place} (h : directory.place path = .ok place)
    (hentry : directory.at? place ≠ some .folder) :
    ∃ parent, place = parent ++ [Path.lastName path] ∧ directory.at? parent = some .folder := by
  obtain ⟨-, -, -, hfollow⟩ := place_eq_ok_iff.mp h
  obtain ⟨before, hnames⟩ := Path.exists_names_eq path
  obtain ⟨hlast, hsizes, hfolders⟩ := follow_eq_ok_iff.mp hfollow
  let parent := before.foldl enter (startOf path)
  have hparent : directory.at? parent = some .folder :=
    hfolders before ⟨_, hnames.symm⟩ fun heq => by simp [heq] at hnames
  have hwithin : Within directory parent := by
    refine within_of_follow (within_startOf path) (follow_eq_ok_iff.mpr ⟨rfl, ?_, ?_⟩)
    · exact fun name hname => hsizes name (hnames ▸ List.mem_append_left _ hname)
    · intro earlier hbegins hne
      refine hfolders earlier (hbegins.trans ⟨_, hnames.symm⟩) fun heq => ?_
      have hle := hbegins.length_le
      rw [heq, hnames, List.length_append, List.length_singleton] at hle
      omega
  have hplace : place = enter parent (Path.lastName path) := by
    rw [← hlast, hnames, List.foldl_append]
    rfl
  rw [hplace] at hentry ⊢
  unfold enter at hentry ⊢
  split
  · rename_i hstay
    rw [if_pos hstay] at hentry
    exact absurd hparent hentry
  · rename_i hstay
    rw [if_neg hstay] at hentry
    split
    · rename_i hback
      rw [if_pos hback] at hentry
      exact absurd (at?_back hwithin hparent) hentry
    · exact ⟨parent, rfl, hparent⟩

end Directory
end SampledProfile
