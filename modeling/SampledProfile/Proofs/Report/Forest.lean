/-
# The forest of the frames

A frame that opens while others are open closes before them.  So the frames of a replay that is over
are a forest: inside a frame lie those that opened and closed while it was open (`Forest`).

* `Forest.events` is what a replay of the forest reports.  The reports determine the forest
  (`Forest.eq_of_events_eq`), so one may speak of the forest of a replay;
* `Forest.rows` are the frames in the order in which they opened (`Forest.openings_events`), and
  `Forest.outers` are the frames directly around them;
* `Forest.exists_outer`: if every frame is as deep as it lies in the forest, then the frame around
  another is the nearest one before it that is one less deep;
* **brackets that all close are the reports of a forest** (`exists_forest`).

To build the forest, the reports are read from the end.  What is still to come closes every open
frame, and before each of these closings stands a forest of its own (`Closes`).
-/
import SampledProfile.Proofs.Replay.Brackets
import SampledProfile.Report

namespace SampledProfile
namespace Report

variable {α : Type}

/-! ## 1. Openings and closings -/

/-- What is reported of a frame when it opens. -/
structure Opening (α : Type) where
  depth : Nat
  node : Nat
  time : α

/-- The opening that is reported. -/
def opening? : Event α → Option (Opening α)
  | .opened depth node time => some ⟨depth, node, time⟩
  | .closed .. => none

namespace FrameRow

/-- How the frame opened. -/
def opening (frame : FrameRow α) : Opening α := ⟨frame.depth, frame.node, frame.start⟩

/-- The report of the opening. -/
def opened (frame : FrameRow α) : Event α := .opened frame.depth frame.node frame.start

/-- The report of the closing. -/
def closed (frame : FrameRow α) : Event α :=
  .closed frame.depth frame.node frame.start frame.duration frame.self

@[simp] theorem opening?_opened (frame : FrameRow α) :
    opening? frame.opened = some frame.opening := rfl

@[simp] theorem opening?_closed (frame : FrameRow α) : opening? frame.closed = none := rfl

@[simp] theorem closedFrame?_opened (frame : FrameRow α) : closedFrame? frame.opened = none := rfl

@[simp] theorem closedFrame?_closed (frame : FrameRow α) :
    closedFrame? frame.closed = some frame := rfl

theorem eq_of_closed_eq {frame other : FrameRow α} (h : frame.closed = other.closed) :
    frame = other := by
  cases frame
  cases other
  simpa [closed] using h

end FrameRow

/-! ## 2. Forests -/

/-- Frames that opened one after the other, each with those inside it. -/
inductive Forest (α : Type) where
  | empty
  /-- A frame, the frames inside it, and those that opened after it. -/
  | cons (row : FrameRow α) (inside after : Forest α)

namespace Forest

/-- What a replay of the frames reports. -/
def events : Forest α → List (Event α)
  | empty => []
  | cons row inside after => row.opened :: (inside.events ++ row.closed :: after.events)

/-- The frames in the order in which they opened. -/
def rows : Forest α → List (FrameRow α)
  | empty => []
  | cons row inside after => row :: (inside.rows ++ after.rows)

/-- The frames directly around the frames in the order in which these opened, if one lies around
them all. -/
def outers (outer : Option (FrameRow α)) : Forest α → List (Option (FrameRow α))
  | empty => []
  | cons row inside after => outer :: (inside.outers (some row) ++ after.outers outer)

/-- Every frame is as deep as it lies in the forest, which itself lies at some depth. -/
def LiesAt (depth : Nat) : Forest α → Prop
  | empty => True
  | cons row inside after => row.depth = depth ∧ inside.LiesAt (depth + 1) ∧ after.LiesAt depth

/-- The frames are those that are reported to open, in the same order. -/
theorem openings_events (forest : Forest α) :
    forest.events.filterMap opening? = forest.rows.map FrameRow.opening := by
  induction forest with
  | empty => rfl
  | cons row inside after ihInside ihAfter => simp [events, rows, List.filterMap_cons, ihInside, ihAfter]

/-- The frames are those that are reported to close. -/
theorem perm_rows (forest : Forest α) :
    (forest.events.filterMap closedFrame?).Perm forest.rows := by
  induction forest with
  | empty => exact .nil
  | cons row inside after ihInside ihAfter =>
    have hclosed : (cons row inside after).events.filterMap closedFrame? =
        inside.events.filterMap closedFrame? ++ row :: after.events.filterMap closedFrame? := by
      simp [events, List.filterMap_cons]
    rw [hclosed]
    exact List.perm_middle.trans ((ihInside.append ihAfter).cons row)

@[simp] theorem length_outers (forest : Forest α) : ∀ outer : Option (FrameRow α),
    (forest.outers outer).length = forest.rows.length := by
  induction forest with
  | empty => exact fun _ => rfl
  | cons row inside after ihInside ihAfter =>
    intro outer
    simp [outers, rows, ihInside, ihAfter]

/-- The forest ends where the first report comes that is not an opening. -/
theorem eq_of_events_append_eq : ∀ {forest other : Forest α} {rest last : List (Event α)},
    (∀ event ∈ rest.head?, opening? event = none) → (∀ event ∈ last.head?, opening? event = none) →
    forest.events ++ rest = other.events ++ last → forest = other ∧ rest = last
  | .empty, .empty, _, _, _, _, h => ⟨rfl, h⟩
  | .empty, .cons row _ _, rest, _, hrest, _, h => by
    have hhead := hrest row.opened (by rw [show rest = _ from h]; rfl)
    cases hhead
  | .cons row _ _, .empty, _, last, _, hlast, h => by
    have hhead := hlast row.opened (by rw [← show _ = last from h]; rfl)
    cases hhead
  | .cons row inside after, .cons row' inside' after', rest, last, hrest, hlast, h => by
    simp only [events, List.cons_append, List.append_assoc] at h
    obtain ⟨-, hinside⟩ := List.cons.inj h
    obtain ⟨rfl, hclosed⟩ := eq_of_events_append_eq (by simp) (by simp) hinside
    obtain ⟨hrow, hafter⟩ := List.cons.inj hclosed
    obtain rfl := FrameRow.eq_of_closed_eq hrow
    obtain ⟨rfl, rfl⟩ := eq_of_events_append_eq hrest hlast hafter
    exact ⟨rfl, rfl⟩

/-- **Two forests with the same reports are the same.** -/
theorem eq_of_events_eq {forest other : Forest α} (h : forest.events = other.events) :
    forest = other := by
  have hnothing : ∀ event ∈ ([] : List (Event α)).head?, opening? event = none := nofun
  have happend : forest.events ++ [] = other.events ++ [] := congrArg (· ++ []) h
  exact (eq_of_events_append_eq hnothing hnothing happend).1

end Forest

/-! ## 3. The frame around a frame -/

/-- Of some frames the last one that is one less deep than so much. -/
def nearestAbove (depth : Nat) (earlier : List (FrameRow α)) : Option (FrameRow α) :=
  earlier.reverse.find? fun frame => decide (frame.depth + 1 = depth)

theorem nearestAbove_append_of_le {depth : Nat} (earlier : List (FrameRow α))
    {deep : List (FrameRow α)} (h : ∀ frame ∈ deep, depth ≤ frame.depth) :
    nearestAbove depth (earlier ++ deep) = nearestAbove depth earlier := by
  have hnone : deep.reverse.find? (fun frame => decide (frame.depth + 1 = depth)) = none := by
    refine List.find?_eq_none.mpr fun frame hframe => ?_
    have hle := h frame (List.mem_reverse.mp hframe)
    simp only [decide_eq_true_eq]
    omega
  rw [nearestAbove, List.reverse_append, List.find?_append, hnone, Option.none_or, nearestAbove]

theorem nearestAbove_append_singleton (earlier : List (FrameRow α)) (frame : FrameRow α) :
    nearestAbove (frame.depth + 1) (earlier ++ [frame]) = some frame := by
  simp [nearestAbove]

namespace Forest

variable {forest : Forest α} {depth : Nat}

/-- No frame of the forest lies above it. -/
theorem LiesAt.le_depth : ∀ {forest : Forest α} {depth : Nat}, forest.LiesAt depth →
    ∀ frame ∈ forest.rows, depth ≤ frame.depth
  | .cons row inside after, depth, ⟨hrow, hinside, hafter⟩, frame, hframe => by
    simp only [rows, List.mem_cons, List.mem_append] at hframe
    rcases hframe with rfl | hframe | hframe
    · exact hrow.ge
    · exact Nat.le_of_succ_le (hinside.le_depth frame hframe)
    · exact hafter.le_depth frame hframe

/-- How deep the frames directly on a frame lie. -/
def depthOn (outer : Option (FrameRow α)) : Nat := outer.elim 0 fun frame => frame.depth + 1

/-- The frame around every frame of a forest is the nearest one before it that is one less deep, if
that is so of the forest itself after some frames. -/
theorem getElem?_outers {outer : Option (FrameRow α)} {earlier : List (FrameRow α)}
    (h : forest.LiesAt depth) (houter : nearestAbove depth earlier = outer)
    (hdepth : depthOn outer = depth) {index : Nat} {frame : FrameRow α}
    (hframe : forest.rows[index]? = some frame) :
    (forest.outers outer)[index]? =
        some (nearestAbove frame.depth (earlier ++ forest.rows.take index)) ∧
      depthOn (nearestAbove frame.depth (earlier ++ forest.rows.take index)) = frame.depth := by
  induction forest generalizing depth outer earlier index with
  | empty => cases hframe
  | cons row inside after ihInside ihAfter =>
    obtain ⟨rfl, hinside, hafter⟩ := h
    cases index with
    | zero =>
      obtain rfl : row = frame := Option.some.inj hframe
      simp [outers, houter, hdepth]
    | succ index =>
      simp only [rows, outers, List.getElem?_cons_succ, List.take_succ_cons] at hframe ⊢
      by_cases hlt : index < inside.rows.length
      · rw [List.getElem?_append_left hlt] at hframe
        rw [List.getElem?_append_left (by rwa [length_outers]), List.take_append_of_le_length hlt.le,
          List.append_cons]
        exact ihInside hinside (nearestAbove_append_singleton earlier row) rfl hframe
      · -- what lies inside the frame is skipped, and so is the frame itself
        have hge := Nat.le_of_not_lt hlt
        have hskip : nearestAbove row.depth (earlier ++ row :: inside.rows) = outer := by
          refine (nearestAbove_append_of_le earlier ?_).trans houter
          exact List.forall_mem_cons.mpr ⟨Nat.le_refl _, fun frame hframe =>
            Nat.le_of_succ_le (hinside.le_depth frame hframe)⟩
        rw [List.getElem?_append_right hge] at hframe
        rw [List.getElem?_append_right (by rwa [length_outers]), length_outers, List.take_append,
          List.take_of_length_le hge, ← List.cons_append, ← List.append_assoc]
        exact ihAfter hafter hskip hdepth hframe

/-- **The frame directly around another one is the nearest before it that is one less deep.** -/
theorem exists_outer (h : forest.LiesAt 0) {index : Nat} {frame : FrameRow α}
    (hframe : forest.rows[index]? = some frame) (hdeep : 0 < frame.depth) :
    ∃ outer, (forest.outers none)[index]? = some (some outer) ∧
      nearestAbove frame.depth (forest.rows.take index) = some outer := by
  have houtermost : nearestAbove 0 ([] : List (FrameRow α)) = none := rfl
  obtain ⟨houter, hdepth⟩ := getElem?_outers h houtermost rfl hframe
  rw [List.nil_append] at houter hdepth
  cases hfound : nearestAbove frame.depth (forest.rows.take index) with
  | none =>
    rw [hfound] at hdepth
    exact absurd hdepth hdeep.ne
  | some outer => exact ⟨outer, by rw [houter, hfound], rfl⟩

end Forest

/-! ## 4. The forest of a replay -/

variable [Scalar α]

/-- The reports that are still to come close all open frames: up to the closing of each they are
those of a forest, and so they are behind the last one. -/
inductive Closes : List (Bracket α) → List (Event α) → Prop
  | last {forest : Forest α} : forest.LiesAt 0 → Closes [] forest.events
  | bracket {bracket : Bracket α} {below : List (Bracket α)} {events : List (Event α)}
      {inside : Forest α} (row : FrameRow α) : inside.LiesAt (below.length + 1) →
        row.opening = ⟨bracket.depth, bracket.node, bracket.start⟩ → Closes below events →
        Closes (bracket :: below) (inside.events ++ row.closed :: events)

omit [Scalar α] in
/-- What was nested in an open frame does not matter for what is to come. -/
theorem Closes.of_nest {duration : α} {brackets : List (Bracket α)} {events : List (Event α)}
    (h : Closes (nest duration brackets) events) : Closes brackets events := by
  cases brackets with
  | nil => exact h
  | cons bracket below =>
    cases h with
    | bracket row hinside hopening hbelow => exact .bracket row hinside hopening hbelow

omit [Scalar α] in
/-- A frame opens, and what comes up to its closing lies inside it. -/
theorem Closes.of_opened {node : Nat} {time : α} {brackets : List (Bracket α)}
    {events : List (Event α)}
    (h : Closes (⟨brackets.length, node, time, []⟩ :: brackets) events) :
    Closes brackets (.opened brackets.length node time :: events) := by
  cases h with
  | bracket row hinside hopening hbelow =>
    have hdepth : row.depth = brackets.length := congrArg Opening.depth hopening
    have hopened : .opened brackets.length node time = row.opened := by
      obtain ⟨hdepth, hnode, hstart⟩ := Opening.mk.inj hopening
      rw [FrameRow.opened, hdepth, hnode, hstart]
    have hframe : ∀ {after : Forest α}, after.LiesAt brackets.length →
        (Forest.cons row _ after).LiesAt brackets.length := fun hafter => ⟨hdepth, hinside, hafter⟩
    rw [hopened]
    cases hbelow with
    | last hforest => exact .last (hframe hforest)
    | bracket outer hafter houter hrest =>
      have hclosed := Closes.bracket outer (hframe hafter) houter hrest
      simpa [Forest.events] using hclosed

/-- One report before what is to come. -/
theorem Closes.of_reports {time : α} {brackets next : List (Bracket α)} {event : Event α}
    {events : List (Event α)} (h : Reports time brackets event next) (hnext : Closes next events) :
    Closes brackets (event :: events) := by
  cases h with
  | opened node brackets => exact hnext.of_opened
  | closed bracket below =>
    have hempty : (Forest.empty : Forest α).LiesAt (below.length + 1) := trivial
    exact .bracket ⟨_, _, _, _, _⟩ hempty rfl hnext.of_nest

theorem Closes.of_reportsAll {time : α} {brackets next : List (Bracket α)}
    {reports events : List (Event α)} (h : ReportsAll time brackets reports next)
    (hnext : Closes next events) : Closes brackets (reports ++ events) := by
  induction h with
  | nil => exact hnext
  | cons hevent _ ih => exact .of_reports hevent (ih hnext)

theorem Closes.of_bracketed {times : List α} {brackets : List (Bracket α)}
    {events : List (Event α)} (h : Bracketed brackets times events []) :
    Closes brackets events := by
  generalize hlast : ([] : List (Bracket α)) = last at h
  induction h with
  | nil =>
    have hempty : (Forest.empty : Forest α).LiesAt 0 := trivial
    exact hlast ▸ .last hempty
  | cons hreports _ ih => exact .of_reportsAll hreports (ih hlast)

/-- **Brackets that all close are the reports of a forest.** -/
theorem exists_forest {times : List α} {events : List (Event α)}
    (h : Bracketed [] times events []) :
    ∃ forest : Forest α, events = forest.events ∧ forest.LiesAt 0 := by
  cases Closes.of_bracketed h with
  | last hforest => exact ⟨_, rfl, hforest⟩

end Report
end SampledProfile
