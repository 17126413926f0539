/-
# The frame that lies on no other

Of the frames that are open at most one lies on no other (`outermost`).  A replay keeps it from one
sample to the next wherever both are calls below the same child of the root:

* `Replay.reports` are what a replay reports at each sample, as far as it gets.  A replay that comes
  to its end reports them, and then what closes at the end (`Replay.exists_closing`);
* `Replay.isSome_outermost`: after a sample the frame is there, unless the sample is of the root;
* `Replay.joined_of_calls`: from a call on to others with the same top-level node it stays the same
  frame (`Replay.Joined`).

What a single sample reports is said once (`Replay.Steps`), and holds whatever the buffers do.
-/
import SampledProfile.Proofs.Arena.Tops
import SampledProfile.Proofs.Outcome

namespace SampledProfile

open Outcome

/-! ## 1. What reports say of it -/

namespace Event

variable {α : Type}

/-- On how many others the frame of a report lies. -/
def depth : Event α → Nat
  | .opened depth _ _ => depth
  | .closed depth _ _ _ _ => depth

/-- What a report leaves of the frame that lies on no other, its node and when it opened. -/
def outer (frame : Option (Nat × α)) : Event α → Option (Nat × α)
  | .opened depth node time => if depth = 0 then some (node, time) else frame
  | .closed depth _ _ _ _ => if depth = 0 then none else frame

theorem outer_of_pos {event : Event α} (h : 0 < event.depth) (frame : Option (Nat × α)) :
    event.outer frame = frame := by
  cases event with
  | opened depth node time => exact if_neg (Nat.ne_of_gt h)
  | closed depth node start duration self => exact if_neg (Nat.ne_of_gt h)

end Event

/-- What some reports leave of the frame that lies on no other. -/
def outerAfter {α : Type} (frame : Option (Nat × α)) (events : List (Event α)) :
    Option (Nat × α) := events.foldl Event.outer frame

/-- The frame that lies on no other after some reports from the start. -/
def outermost {α : Type} (events : List (Event α)) : Option (Nat × α) := outerAfter none events

section Outer

variable {α : Type} {frame : Option (Nat × α)}

theorem outerAfter_append (events rest : List (Event α)) :
    outerAfter frame (events ++ rest) = outerAfter (outerAfter frame events) rest :=
  List.foldl_append

/-- Reports of frames that lie on others do not matter. -/
theorem outerAfter_of_pos : ∀ {events : List (Event α)}, (∀ event ∈ events, 0 < event.depth) →
    outerAfter frame events = frame
  | [], _ => rfl
  | event :: rest, h => by
    obtain ⟨hfirst, hrest⟩ := List.forall_mem_cons.mp h
    rw [outerAfter, List.foldl_cons, Event.outer_of_pos hfirst]
    exact outerAfter_of_pos hrest

end Outer

namespace Replay

variable {β α : Type} [Scalar α] {arena : Arena β α} {collector : Option Nat}
  {alike : Nat → Bool}

/-! ## 2. What a sample reports -/

/-- What closes are frames of the nodes, in their order. -/
theorem closed_of_closeAll {time : α} : ∀ {nodes : List Nat} {stack left : Stack α}
    {events : List (Event α)}, closeAll arena time nodes stack = .ok (left, events) →
    List.Forall₂ (fun node event => ∃ start duration self,
      event = Event.closed (arena.depth node - 1) node start duration self) nodes events
  | [], _, _, _, h => by
    cases h
    exact .nil
  | node :: rest, stack, left, events, h => by
    obtain ⟨⟨popped, event⟩, hclose, h⟩ := bind_eq_ok.mp h
    obtain ⟨⟨last, others⟩, hrest, h⟩ := bind_eq_ok.mp h
    obtain ⟨⟨below, start, duration, self⟩, -, hevent⟩ := bind_eq_ok.mp hclose
    obtain ⟨-, rfl⟩ := Prod.mk.inj (pure_eq_ok.mp hevent)
    obtain ⟨-, rfl⟩ := Prod.mk.inj (pure_eq_ok.mp h)
    exact .cons ⟨start, duration, self, rfl⟩ (closed_of_closeAll hrest)

/-- What opens are frames of the nodes, in their order. -/
theorem opened_of_openAll {time : α} : ∀ {nodes : List Nat} {stack left : Stack α}
    {events : List (Event α)}, openAll arena time nodes stack = .ok (left, events) →
    events = nodes.map fun node => .opened (arena.depth node - 1) node time
  | [], _, _, _, h => by
    cases h
    rfl
  | node :: rest, stack, left, events, h => by
    obtain ⟨pushed, -, h⟩ := bind_eq_ok.mp h
    obtain ⟨⟨last, others⟩, hrest, h⟩ := bind_eq_ok.mp h
    obtain ⟨-, rfl⟩ := Prod.mk.inj (pure_eq_ok.mp h)
    rw [opened_of_openAll hrest, List.map_cons]

/-- A collection that was sampled last ends, or nothing happens. -/
inductive Resumes (arena : Arena β α) (collector : Option Nat) (state : ReplayState α) :
    ReplayState α → List (Event α) → Prop
  | ended {node : Nat} {stack : Stack α} {start duration self : α} :
      state.interrupted = some node → collector = some state.previous →
      Resumes arena collector state ⟨stack, node, none⟩
        [.closed (arena.depth node) state.previous start duration self]
  | idle : Resumes arena collector state state []

theorem resumes_of_resume {time : α} {state rested : ReplayState α} {ended : List (Event α)}
    (h : resume arena collector time state = .ok (rested, ended)) :
    Resumes arena collector state rested ended := by
  unfold resume at h
  split at h
  · rename_i node hinterrupted
    split at h
    · rename_i hcollector
      obtain ⟨⟨stack, event⟩, hclose, h⟩ := bind_eq_ok.mp h
      obtain ⟨⟨below, start, duration, self⟩, -, hevent⟩ := bind_eq_ok.mp hclose
      obtain ⟨-, rfl⟩ := Prod.mk.inj (pure_eq_ok.mp hevent)
      obtain ⟨rfl, rfl⟩ := Prod.mk.inj (pure_eq_ok.mp h)
      exact .ended hinterrupted hcollector
    · cases h
      exact .idle
  · cases h
    exact .idle

/-- Everything that one sample can do. -/
inductive Steps (arena : Arena β α) (collector : Option Nat) (sample : Nat × α)
    (state : ReplayState α) : ReplayState α → List (Event α) → Prop
  | again : sample.1 = state.previous → Steps arena collector sample state state []
  | collection {stack : Stack α} : collector = some sample.1 →
      Steps arena collector sample state ⟨stack, sample.1, some state.previous⟩
        [.opened (arena.depth state.previous) sample.1 sample.2]
  | call {rested : ReplayState α} {kept stack : Stack α} {ended closed opened : List (Event α)} :
      collector ≠ some sample.1 → Resumes arena collector state rested ended →
      closeAll arena sample.2 (arena.move rested.previous sample.1).1 rested.stack =
        .ok (kept, closed) →
      openAll arena sample.2 (arena.move rested.previous sample.1).2 kept = .ok (stack, opened) →
      Steps arena collector sample state ⟨stack, sample.1, rested.interrupted⟩
        (ended ++ closed ++ opened)

theorem steps_of_step {sample : Nat × α} {state next : ReplayState α} {events : List (Event α)}
    (h : step arena collector alike sample state = .ok (next, events)) :
    Steps arena collector sample state next events := by
  unfold step at h
  dsimp only at h
  split at h
  · rename_i hagain
    cases h
    obtain ⟨hsame, -⟩ := Bool.and_eq_true_iff.mp hagain
    exact .again (of_decide_eq_true hsame)
  split at h
  · rename_i hcollector
    obtain ⟨stack, -, h⟩ := bind_eq_ok.mp h
    obtain ⟨rfl, rfl⟩ := Prod.mk.inj (pure_eq_ok.mp h)
    exact .collection hcollector
  · rename_i hcollector
    obtain ⟨⟨rested, ended⟩, hresume, h⟩ := bind_eq_ok.mp h
    obtain ⟨⟨kept, closed⟩, hclose, h⟩ := bind_eq_ok.mp h
    obtain ⟨⟨stack, opened⟩, hopen, h⟩ := bind_eq_ok.mp h
    obtain ⟨rfl, rfl⟩ := Prod.mk.inj (pure_eq_ok.mp h)
    exact .call hcollector (resumes_of_resume hresume) hclose hopen

/-! ## 3. Ways through the tree -/

section Ways

variable {time : α} {old new : Nat} {stack kept next : Stack α} {closed opened : List (Event α)}

omit [Scalar α] in
theorem lt_depth_of_mem_drop (h : arena.WellPlaced) {node : Nat} (hnode : node < arena.size)
    {count other : Nat} (hother : other ∈ (arena.path node).drop count) :
    count < arena.depth other := by
  obtain ⟨index, hindex⟩ := List.mem_iff_getElem?.mp hother
  rw [List.getElem?_drop] at hindex
  rw [h.depth_getElem?_path node hnode _ other hindex]
  omega

/-- Between nodes whose paths have a common beginning, what closes and opens lies on that. -/
theorem depth_pos_of_move (h : arena.WellPlaced) (ho : old < arena.size) (hn : new < arena.size)
    (hclose : closeAll arena time (arena.move old new).1 stack = .ok (kept, closed))
    (hopen : openAll arena time (arena.move old new).2 kept = .ok (next, opened))
    (hshared : 0 < shared (arena.path old) (arena.path new)) :
    ∀ event ∈ closed ++ opened, 0 < event.depth := by
  rw [h.move_eq ho hn] at hclose hopen
  intro event hevent
  rcases List.mem_append.mp hevent with hclosed | hopened
  · obtain ⟨node, hnode, start, duration, self, rfl⟩ :=
      exists_of_forall₂ (closed_of_closeAll hclose).flip hclosed
    have hdepth := lt_depth_of_mem_drop h ho (List.mem_reverse.mp hnode)
    show 0 < arena.depth node - 1
    omega
  · rw [opened_of_openAll hopen] at hopened
    obtain ⟨node, hnode, rfl⟩ := List.mem_map.mp hopened
    have hdepth := lt_depth_of_mem_drop h hn hnode
    show 0 < arena.depth node - 1
    omega

/-- Closing a whole stack closes the frame that lies on no other. -/
theorem outerAfter_closeAll (h : arena.WellPlaced) (ho : old < arena.size)
    (hclose : closeAll arena time (arena.path old).reverse stack = .ok (kept, closed))
    {frame : Option (Nat × α)} (hframe : frame.isSome = true ↔ old ≠ 0) :
    outerAfter frame closed = none := by
  have hevents := closed_of_closeAll hclose
  cases hpath : arena.path old with
  | nil =>
    have hzero : old = 0 := by
      refine h.eq_zero_of_depth ho ?_
      rw [← h.length_path old ho, hpath, List.length_nil]
    rw [hpath] at hevents
    cases hevents
    simpa [outerAfter, hzero] using hframe
  | cons top rest =>
    have hdepth : arena.depth top = 1 := h.depth_getElem?_path old ho 0 top (by rw [hpath]; rfl)
    -- the outermost frame of the path closes last
    have hreversed := List.rel_reverse hevents
    rw [List.reverse_reverse, hpath] at hreversed
    obtain ⟨last, inner, ⟨start, duration, self, rfl⟩, -, hclosed⟩ :=
      List.forall₂_cons_left_iff.mp hreversed
    rw [← List.reverse_reverse closed, hclosed, List.reverse_cons, outerAfter_append]
    simp [outerAfter, Event.outer, hdepth]

/-- Opening a whole stack opens such a frame, unless the stack is that of the root. -/
theorem isSome_outerAfter_openAll (h : arena.WellPlaced) (hn : new < arena.size)
    (hopen : openAll arena time (arena.path new) kept = .ok (next, opened)) :
    (outerAfter none opened).isSome = true ↔ new ≠ 0 := by
  rw [opened_of_openAll hopen]
  cases hpath : arena.path new with
  | nil =>
    have hzero : new = 0 := by
      refine h.eq_zero_of_depth hn ?_
      rw [← h.length_path new hn, hpath, List.length_nil]
    simp [outerAfter, hzero]
  | cons top rest =>
    have hdepth : arena.depth top = 1 := h.depth_getElem?_path new hn 0 top (by rw [hpath]; rfl)
    have hne : new ≠ 0 := by
      rintro rfl
      rw [h.path_root] at hpath
      cases hpath
    have hinner : ∀ event ∈ rest.map fun node => Event.opened (arena.depth node - 1) node time,
        0 < event.depth := by
      intro event hevent
      obtain ⟨node, hnode, rfl⟩ := List.mem_map.mp hevent
      have hmem : node ∈ (arena.path new).drop 1 := by rwa [hpath]
      have hlt := lt_depth_of_mem_drop h hn hmem
      show 0 < arena.depth node - 1
      omega
    rw [List.map_cons, outerAfter, List.foldl_cons]
    show (outerAfter _ _).isSome = true ↔ _
    rw [outerAfter_of_pos hinner]
    simp [Event.outer, hdepth, hne]

/-- From a node to another, the frame is there afterwards unless the other is the root. -/
theorem isSome_outerAfter_move (h : arena.WellPlaced) (ho : old < arena.size)
    (hn : new < arena.size)
    (hclose : closeAll arena time (arena.move old new).1 stack = .ok (kept, closed))
    (hopen : openAll arena time (arena.move old new).2 kept = .ok (next, opened))
    {frame : Option (Nat × α)} (hframe : frame.isSome = true ↔ old ≠ 0) :
    (outerAfter frame (closed ++ opened)).isSome = true ↔ new ≠ 0 := by
  rcases Nat.eq_zero_or_pos (shared (arena.path old) (arena.path new)) with hnone | hshared
  · rw [h.move_eq ho hn, hnone, List.drop_zero, List.drop_zero] at hclose hopen
    rw [outerAfter_append, outerAfter_closeAll h ho hclose hframe]
    exact isSome_outerAfter_openAll h hn hopen
  · rw [outerAfter_of_pos (depth_pos_of_move h ho hn hclose hopen hshared), hframe]
    have hnonempty : ∀ {node : Nat}, 0 < (arena.path node).length → node ≠ 0 := by
      rintro node hlength rfl
      rw [h.path_root] at hlength
      cases hlength
    have hfirst := shared_le_length (arena.path old) (arena.path new)
    have hsecond := shared_le_length (arena.path new) (arena.path old)
    rw [shared_comm] at hsecond
    exact iff_of_true (hnonempty (by omega)) (hnonempty (by omega))

end Ways

/-! ## 4. One sample -/

section Sample

variable {sample : Nat × α} {state next : ReplayState α} {events : List (Event α)}

/-- A replay stands at nodes of the tree, and a frame lies on no other unless it is the root. -/
structure Watched (arena : Arena β α) (state : ReplayState α) (frame : Option (Nat × α)) :
    Prop where
  previous : state.previous < arena.size
  interrupted : ∀ node, state.interrupted = some node → node < arena.size
  outer : frame.isSome = true ↔ state.previous ≠ 0

theorem previous_of_steps (h : Steps arena collector sample state next events) :
    next.previous = sample.1 := by
  cases h with
  | again hsame => exact hsame.symm
  | collection _ => rfl
  | call _ _ _ _ => rfl

omit [Scalar α] in
theorem Watched.resumes (h : arena.WellPlaced) {frame : Option (Nat × α)}
    (hwatched : Watched arena state frame) (hroot : collector ≠ some 0) {rested : ReplayState α}
    (hresumes : Resumes arena collector state rested events) :
    Watched arena rested (outerAfter frame events) := by
  cases hresumes with
  | idle => exact hwatched
  | @ended node stack start duration self hinterrupted hcollector =>
    have hnode : node < arena.size := hwatched.interrupted node hinterrupted
    have hprevious : state.previous ≠ 0 := fun hzero => hroot (hzero ▸ hcollector)
    refine ⟨hnode, nofun, ?_⟩
    show (Event.outer frame
      (.closed (arena.depth node) state.previous start duration self)).isSome = true ↔ node ≠ 0
    by_cases hzero : node = 0
    · simp [Event.outer, hzero, h.rootDepth]
    · have hdepth : arena.depth node ≠ 0 := fun hdepth => hzero (h.eq_zero_of_depth hnode hdepth)
      rw [Event.outer, if_neg hdepth, hwatched.outer]
      exact iff_of_true hprevious hzero

/-- A sample keeps that. -/
theorem Watched.steps (h : arena.WellPlaced) {frame : Option (Nat × α)}
    (hwatched : Watched arena state frame) (hroot : collector ≠ some 0)
    (hsample : sample.1 < arena.size) (hsteps : Steps arena collector sample state next events) :
    Watched arena next (outerAfter frame events) := by
  cases hsteps with
  | again _ => exact hwatched
  | collection hcollector =>
    refine ⟨hsample, fun node hnode => Option.some.inj hnode ▸ hwatched.previous, ?_⟩
    have hne : sample.1 ≠ 0 := fun hzero => hroot (hzero ▸ hcollector)
    show (Event.outer frame (.opened (arena.depth state.previous) _ _)).isSome = true ↔ sample.1 ≠ 0
    by_cases hzero : state.previous = 0
    · simp [Event.outer, hzero, h.rootDepth, hne]
    · have hdepth : arena.depth state.previous ≠ 0 := fun hdepth =>
        hzero (h.eq_zero_of_depth hwatched.previous hdepth)
      rw [Event.outer, if_neg hdepth, hwatched.outer]
      exact iff_of_true hzero hne
  | call hcollector hresumes hclose hopen =>
    have hrested := hwatched.resumes h hroot hresumes
    refine ⟨hsample, hrested.interrupted, ?_⟩
    rw [List.append_assoc, outerAfter_append]
    exact isSome_outerAfter_move h hrested.previous hsample hclose hopen hrested.outer

/-- **From a call to another one with the same top-level node, no frame is reported that lies on no
other.** -/
theorem depth_pos_of_steps (h : arena.WellPlaced) (hprevious : state.previous < arena.size)
    (hsample : sample.1 < arena.size) (hold : collector ≠ some state.previous)
    (hnew : collector ≠ some sample.1) {top : Nat} (hne : top ≠ 0)
    (htop : arena.IsTop state.previous top) (hother : arena.IsTop sample.1 top)
    (hsteps : Steps arena collector sample state next events) :
    ∀ event ∈ events, 0 < event.depth := by
  cases hsteps with
  | again _ => simp
  | collection hcollector => exact absurd hcollector hnew
  | call _ hresumes hclose hopen =>
    cases hresumes with
    | ended _ hcollector => exact absurd hcollector hold
    | idle =>
      refine depth_pos_of_move h hprevious hsample hclose hopen ?_
      exact h.shared_pos_of_isTop hne htop hother

end Sample

/-! ## 5. All samples -/

section Stream

/-- What a replay reports at each sample, as far as it gets. -/
def reports (arena : Arena β α) (collector : Option Nat) (alike : Nat → Bool) :
    List (Nat × α) → ReplayState α → List (List (Event α))
  | [], _ => []
  | sample :: rest, state =>
    match step arena collector alike sample state with
    | .ok (next, events) => events :: reports arena collector alike rest next
    | .error _ => []

/-- A replay that comes to its end has reported at each sample, and then closes what is open. -/
theorem exists_closing {stop : α} {left : Scratch α} : ∀ {stream : List (Nat × α)}
    {state : ReplayState α} {events : List (Event α)},
    runFrom arena collector alike stop stream state = .ok (left, events) →
    (reports arena collector alike stream state).length = stream.length ∧
      ∃ closing, events = (reports arena collector alike stream state).flatten ++ closing
  | [], state, events, _ => ⟨rfl, events, rfl⟩
  | sample :: rest, state, events, h => by
    obtain ⟨⟨next, first⟩, hstep, h⟩ := bind_eq_ok.mp h
    obtain ⟨⟨scratch, others⟩, hrest, h⟩ := bind_eq_ok.mp h
    obtain ⟨rfl, rfl⟩ := Prod.mk.inj (pure_eq_ok.mp h)
    obtain ⟨hlength, closing, hothers⟩ := exists_closing hrest
    rw [reports, hstep]
    refine ⟨congrArg Nat.succ hlength, closing, ?_⟩
    rw [hothers, List.flatten_cons, List.append_assoc]

/-- Where a sample is reported on, the replay stood at the sample before. -/
theorem exists_steps (h : arena.WellPlaced) (hroot : collector ≠ some 0) : ∀ {index : Nat}
    {stream : List (Nat × α)} {state : ReplayState α} {frame : Option (Nat × α)}
    {events : List (Event α)}, Watched arena state frame →
    (∀ sample ∈ stream, sample.1 < arena.size) →
    (reports arena collector alike stream state)[index]? = some events →
    ∃ sample mid next, stream[index]? = some sample ∧
      Steps arena collector sample mid next events ∧
      mid.previous = ((stream.take index).getLast?.map Prod.fst).getD state.previous ∧
      Watched arena mid
        (outerAfter frame ((reports arena collector alike stream state).take index).flatten)
  | index, [], state, frame, events, _, _, h => by simp [reports] at h
  | index, sample :: rest, state, frame, events, hwatched, hstream, hreport => by
    obtain ⟨hsample, hrest⟩ := List.forall_mem_cons.mp hstream
    cases hstep : step arena collector alike sample state with
    | error fault =>
      rw [reports, hstep] at hreport
      simp at hreport
    | ok stepped =>
      obtain ⟨next, first⟩ := stepped
      have hsteps := steps_of_step hstep
      rw [reports, hstep] at hreport ⊢
      dsimp only at hreport ⊢
      match index with
      | 0 =>
        obtain rfl : first = events := Option.some.inj hreport
        exact ⟨sample, state, next, rfl, hsteps, rfl, hwatched⟩
      | index + 1 =>
        obtain ⟨other, mid, last, hother, hmid, hprevious, hlater⟩ :=
          exists_steps h hroot (hwatched.steps h hroot hsample hsteps) hrest
            (show (reports arena collector alike rest next)[index]? = some events from hreport)
        refine ⟨other, mid, last, hother, hmid, ?_, ?_⟩
        · rw [hprevious, previous_of_steps hsteps, List.take_succ_cons, List.getLast?_cons]
          cases (rest.take index).getLast? <;> rfl
        · rw [List.take_succ_cons, List.flatten_cons, outerAfter_append]
          exact hlater

variable {stream : List (Nat × α)} {scratch : Scratch α}

/-- The reports of a replay from its start. -/
def reportsOf (arena : Arena β α) (collector : Option Nat) (alike : Nat → Bool)
    (stream : List (Nat × α)) (scratch : Scratch α) : List (List (Event α)) :=
  reports arena collector alike stream ⟨⟨scratch, 0⟩, 0, none⟩

omit [Scalar α] in
theorem watched_start (h : arena.WellPlaced) (scratch : Scratch α) :
    Watched arena ⟨⟨scratch, 0⟩, 0, none⟩ none :=
  ⟨h.pos, nofun, by simp⟩

/-- **After a sample that is reported on there is a frame that lies on no other, unless the sample
is of the root.** -/
theorem isSome_outermost (h : arena.WellPlaced) (hroot : collector ≠ some 0)
    (hstream : ∀ sample ∈ stream, sample.1 < arena.size) {index : Nat} {sample : Nat × α}
    (hsample : stream[index]? = some sample)
    (hreached : index < (reportsOf arena collector alike stream scratch).length) :
    (outermost ((reportsOf arena collector alike stream scratch).take (index + 1)).flatten).isSome =
      true ↔ sample.1 ≠ 0 := by
  obtain ⟨found, mid, next, hfound, hsteps, -, hwatched⟩ :=
    exists_steps h hroot (watched_start h scratch) hstream (List.getElem?_eq_getElem hreached)
  rw [hsample] at hfound
  obtain rfl := Option.some.inj hfound
  have hnext := hwatched.steps h hroot (hstream sample (List.mem_of_getElem? hsample)) hsteps
  have hprevious := previous_of_steps hsteps
  rw [List.take_add_one, List.getElem?_eq_getElem hreached, Option.toList_some,
    List.flatten_append, outermost, outerAfter_append, List.flatten_singleton, ← hprevious]
  exact hnext.outer

/-- Between two calls with the same top-level node no frame is reported that lies on no other. -/
theorem depth_pos_of_report (h : arena.WellPlaced) (hroot : collector ≠ some 0)
    (hstream : ∀ sample ∈ stream, sample.1 < arena.size) {index : Nat} {before sample : Nat × α}
    (hbefore : stream[index]? = some before) (hsample : stream[index + 1]? = some sample)
    (hold : collector ≠ some before.1) (hnew : collector ≠ some sample.1) {top : Nat}
    (hne : top ≠ 0) (htop : arena.IsTop before.1 top) (hother : arena.IsTop sample.1 top) :
    ∀ events, (reportsOf arena collector alike stream scratch)[index + 1]? = some events →
      ∀ event ∈ events, 0 < event.depth := by
  intro events hreport
  obtain ⟨found, mid, next, hfound, hsteps, hprevious, hwatched⟩ :=
    exists_steps h hroot (watched_start h scratch) hstream hreport
  rw [hsample] at hfound
  obtain rfl := Option.some.inj hfound
  have hmid : mid.previous = before.1 := by
    rw [hprevious, List.getLast?_take]
    simp [hbefore]
  rw [← hmid] at hold htop
  exact depth_pos_of_steps h hwatched.previous (hstream sample (List.mem_of_getElem? hsample)) hold
    hnew hne htop hother hsteps

/-- Two samples, of which the first has an index, leave the frame that lies on no other as it was
before them, as far as there are reports. -/
structure Joined (reports : List (List (Event α))) (index : Nat) : Prop where
  quiet : ∀ next, next = index ∨ next = index + 1 → ∀ events, reports[next]? = some events →
    ∀ event ∈ events, 0 < event.depth
  same : index ≤ reports.length → ∃ frame, ∀ count, index ≤ count → count ≤ index + 2 →
    count ≤ reports.length → outermost (reports.take count).flatten = some frame

omit [Scalar α] in
theorem outermost_take_succ {reports : List (List (Event α))} {count : Nat}
    (h : ∀ events, reports[count]? = some events → ∀ event ∈ events, 0 < event.depth) :
    outermost (reports.take (count + 1)).flatten = outermost (reports.take count).flatten := by
  rw [List.take_add_one, List.flatten_append, outermost, outerAfter_append]
  cases hevents : reports[count]? with
  | none => rfl
  | some events =>
    rw [Option.toList_some, List.flatten_singleton, outerAfter_of_pos (h events hevents)]
    rfl

/-- **A call that is sampled twice, and then another one with the same top-level node.** -/
theorem joined_of_calls (h : arena.WellPlaced) (hroot : collector ≠ some 0)
    (hstream : ∀ sample ∈ stream, sample.1 < arena.size) {index : Nat}
    {before sample after : Nat × α} (hbefore : stream[index]? = some before)
    (hsample : stream[index + 1]? = some sample) (hafter : stream[index + 2]? = some after)
    (hsame : sample.1 = before.1) (hold : collector ≠ some before.1)
    (hnew : collector ≠ some after.1) {top : Nat} (hne : top ≠ 0)
    (htop : arena.IsTop before.1 top) (hother : arena.IsTop after.1 top) :
    Joined (reportsOf arena collector alike stream scratch) (index + 1) := by
  have hfirst : ∀ events,
      (reportsOf arena collector alike stream scratch)[index + 1]? = some events →
        ∀ event ∈ events, 0 < event.depth :=
    depth_pos_of_report h hroot hstream hbefore hsample hold (hsame ▸ hold) hne htop (hsame ▸ htop)
  have hsecond : ∀ events,
      (reportsOf arena collector alike stream scratch)[index + 2]? = some events →
        ∀ event ∈ events, 0 < event.depth :=
    depth_pos_of_report h hroot hstream hsample hafter (hsame ▸ hold) hnew hne (hsame ▸ htop) hother
  refine ⟨?_, fun hreached => ?_⟩
  · rintro next (rfl | rfl) events hevents
    · exact hfirst events hevents
    · exact hsecond events hevents
  · have hcall : before.1 ≠ 0 := fun hzero => hne ((h.top_eq_zero_iff htop).mpr hzero)
    obtain ⟨frame, hframe⟩ := Option.isSome_iff_exists.mp
      ((isSome_outermost h hroot hstream hbefore hreached).mpr hcall)
    refine ⟨frame, fun count hleast hmost _ => ?_⟩
    have hcases : count = index + 1 ∨ count = index + 2 ∨ count = index + 3 := by omega
    rcases hcases with rfl | rfl | rfl
    · exact hframe
    · rw [outermost_take_succ hfirst, hframe]
    · rw [outermost_take_succ hsecond, outermost_take_succ hfirst, hframe]

end Stream

end Replay
end SampledProfile
