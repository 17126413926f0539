/-
# Reading a replay sample by sample

What a replay reports comes from its samples one after the other (`Replay.trace`), and a reader who
is told which report comes from which sample can say more of a frame than the frame says itself: at
which sample it opened, and which frames were open around it when it closed.  Such a reader keeps a
`Seat` for every open frame and writes a `Reading` for every frame that closes (`Replay.readings`).

In what the effective stacks say, every frame sits where it should (`Seat.Fits`):

* the frame of a node lies at the depth of the node, directly on a frame of the node's parent;
* a collection that was sampled lies at the depth of the node sampled before it.

`Replay.readings_traced` has this for all frames.  It is a matter of the frames that are open
(`AllFit`): closing leaves the seats below as they are, and what opens is the end of a path or a
collection.
-/
import SampledProfile.Proofs.Replay.Windows
import SampledProfile.Report

namespace SampledProfile

open Outcome

namespace Replay

/-! ## 1. Readings -/

/-- A frame that is open: its node, and the index of the sample that it opened at. -/
structure Seat where
  node : Nat
  sample : Nat

/-- A frame that was closed, its seat, and the seats around it, the innermost first. -/
structure Reading (α : Type) where
  frame : Report.FrameRow α
  seat : Seat
  around : List Seat

section Reading

variable {β α : Type}

/-- Reads what one sample reports, with the seats of the frames that are open: the readings, and the
seats that are taken then. -/
def read (sample : Nat) : List (Event α) → List Seat → List (Reading α) × List Seat
  | [], seats => ([], seats)
  | .opened _ node _ :: events, seats => read sample events (⟨node, sample⟩ :: seats)
  | .closed .. :: events, [] => read sample events []
  | .closed depth node start duration self :: events, seat :: around =>
    let (readings, seats) := read sample events around
    (⟨⟨depth, node, start, duration, self⟩, seat, around⟩ :: readings, seats)

/-- Reads what some samples report, of which the first has an index. -/
def readings : Nat → List (List (Event α)) → List Seat → List (Reading α)
  | _, [], _ => []
  | sample, events :: rest, seats =>
    let (first, seats) := read sample events seats
    first ++ readings (sample + 1) rest seats

theorem read_append (sample : Nat) : ∀ (events rest : List (Event α)) (seats : List Seat),
    read sample (events ++ rest) seats =
      ((read sample events seats).1 ++ (read sample rest (read sample events seats).2).1,
        (read sample rest (read sample events seats).2).2)
  | [], _, _ => rfl
  | .opened _ _ _ :: events, rest, seats => read_append sample events rest _
  | .closed .. :: events, rest, [] => read_append sample events rest []
  | .closed .. :: events, rest, seat :: around => by
    simp only [List.cons_append, read, read_append sample events rest around]

/-- Only what is reported is read. -/
theorem mem_of_mem_read (sample : Nat) : ∀ (events : List (Event α)) (seats : List Seat)
    {reading : Reading α}, reading ∈ (read sample events seats).1 →
      reading.frame ∈ events.filterMap Report.closedFrame?
  | .opened _ _ _ :: events, _, _, h => mem_of_mem_read sample events _ h
  | .closed .. :: events, [], _, h => List.mem_cons_of_mem _ (mem_of_mem_read sample events [] h)
  | .closed .. :: events, _ :: around, _, h => by
    rcases List.mem_cons.mp h with rfl | h
    · exact List.mem_cons_self
    · exact List.mem_cons_of_mem _ (mem_of_mem_read sample events around h)

theorem mem_of_mem_readings : ∀ {sample : Nat} {groups : List (List (Event α))}
    {seats : List Seat} {reading : Reading α}, reading ∈ readings sample groups seats →
      reading.frame ∈ groups.flatten.filterMap Report.closedFrame?
  | _, [], _, _, h => by cases h
  | sample, events :: rest, seats, reading, h => by
    rw [List.flatten_cons, List.filterMap_append, List.mem_append]
    rcases List.mem_append.mp h with h | h
    · exact .inl (mem_of_mem_read sample events seats h)
    · exact .inr (mem_of_mem_readings h)

variable [Scalar α]

/-- The reports of every sample, and those of the end. -/
def trace (arena : Arena β α) (collector : Option Nat) (alike : Nat → Bool) (stop : α) :
    List (Nat × α) → ReplayState α → Except Fault (List (List (Event α)))
  | [], state => do
    let (_, events) ← finish arena collector stop state
    return [events]
  | sample :: rest, state => do
    let (state, events) ← step arena collector alike sample state
    return events :: (← trace arena collector alike stop rest state)

/-- All reports are those of a replay. -/
theorem map_flatten_trace (arena : Arena β α) (collector : Option Nat) (alike : Nat → Bool)
    (stop : α) : ∀ (stream : List (Nat × α)) (state : ReplayState α),
    (trace arena collector alike stop stream state).map List.flatten =
      (runFrom arena collector alike stop stream state).map Prod.snd
  | [], state => by
    rw [trace, runFrom]
    cases finish arena collector stop state with
    | error fault => rfl
    | ok finished => simp [ok_bind, pure, Except.pure, Except.map]
  | sample :: rest, state => by
    rw [trace, runFrom]
    cases step arena collector alike sample state with
    | error fault => rfl
    | ok stepped =>
      have ih := map_flatten_trace arena collector alike stop rest stepped.1
      simp only [ok_bind]
      cases htrace : trace arena collector alike stop rest stepped.1 <;>
        cases hrun : runFrom arena collector alike stop rest stepped.1 <;>
        simp_all [bind, Except.bind, pure, Except.pure, Except.map]

end Reading

/-! ## 2. Seats -/

/-- A frame sits where it should, directly on the frames around it, if the samples are of some
nodes.  The frame of a node lies on a frame of its parent, and a collection on what was sampled
before. -/
def Seat.Fits {β α : Type} (arena : Arena β α) (collector : Option Nat) (nodes : List Nat)
    (seat : Seat) (around : List Seat) : Prop :=
  ∃ node, nodes[seat.sample]? = some node ∧
    if collector = some node then
      seat.node = node ∧ around.length =
        if seat.sample = 0 then 0 else arena.depth (nodes.getD (seat.sample - 1) 0)
    else
      arena.depth seat.node = around.length + 1 ∧
        ∀ outer ∈ around.head?, arena.parent? seat.node = some outer.node

/-- A reading tells of a frame that sat where it should. -/
structure Reading.Fits {α : Type} (fits : Seat → List Seat → Prop) (reading : Reading α) :
    Prop where
  node : reading.frame.node = reading.seat.node
  depth : reading.frame.depth = reading.around.length
  seat : fits reading.seat reading.around

section Seats

variable {β α : Type} {fits : Seat → List Seat → Prop} {sample : Nat}

/-- All seats fit on those below them. -/
def AllFit (fits : Seat → List Seat → Prop) : List Seat → Prop
  | [] => True
  | seat :: around => fits seat around ∧ AllFit fits around

theorem AllFit.drop : ∀ (count : Nat) {seats : List Seat}, AllFit fits seats →
    AllFit fits (seats.drop count)
  | 0, _, h => h
  | _ + 1, [], _ => trivial
  | count + 1, _ :: _, h => AllFit.drop count h.2

/-- The seats of what opens, from the outermost on. -/
def OpenFit (fits : Seat → List Seat → Prop) (sample : Nat) : List Activation → List Seat → Prop
  | [], _ => True
  | activation :: rest, seats => fits ⟨activation.node, sample⟩ seats ∧
      OpenFit fits sample rest (⟨activation.node, sample⟩ :: seats)

/-- The seats of open frames. -/
structure Seated (fits : Seat → List Seat → Prop) (frames : List (OpenFrame α))
    (seats : List Seat) : Prop where
  nodes : seats.map Seat.node = (frames.map OpenFrame.activation).map Activation.node
  fit : AllFit fits seats

theorem Seated.length_eq {frames : List (OpenFrame α)} {seats : List Seat}
    (h : Seated fits frames seats) : seats.length = frames.length := by
  simpa using congrArg List.length h.nodes

/-- Some readings tell of all frames that were closed, and these sat where they should. -/
structure Tells (fits : Seat → List Seat → Prop) (events : List (Event α))
    (readings : List (Reading α)) : Prop where
  frames : readings.map Reading.frame = events.filterMap Report.closedFrame?
  fit : ∀ reading ∈ readings, reading.Fits fits

theorem Tells.append {events rest : List (Event α)} {readings others : List (Reading α)}
    (h : Tells fits events readings) (h' : Tells fits rest others) :
    Tells fits (events ++ rest) (readings ++ others) := by
  refine ⟨by rw [List.map_append, List.filterMap_append, h.frames, h'.frames], ?_⟩
  exact List.forall_mem_append.mpr ⟨h.fit, h'.fit⟩

variable [Scalar α]

/-- Frames that close leave their seats. -/
theorem tells_closeMany (sample : Nat) (time : α) : ∀ (count : Nat) {frames : List (OpenFrame α)}
    {seats : List Seat}, Seated fits frames seats →
    Tells fits (closeMany time count frames).1 (read sample (closeMany time count frames).1 seats).1 ∧
      (read sample (closeMany time count frames).1 seats).2 = seats.drop count ∧
      Seated fits (closeMany time count frames).2 (seats.drop count)
  | 0, _, _, h => ⟨⟨rfl, by simp [closeMany, read]⟩, rfl, h⟩
  | count + 1, [], seats, h => by
    obtain rfl : seats = [] := List.length_eq_zero_iff.mp h.length_eq
    exact ⟨⟨rfl, by simp [closeMany, read]⟩, rfl, h⟩
  | count + 1, frame :: below, [], h => by simpa using h.length_eq
  | count + 1, frame :: below, seat :: around, h => by
    obtain ⟨hnode, hnodes⟩ := List.cons.inj h.nodes
    have hbelow : Seated fits (charge (time - frame.start) below) around :=
      ⟨by rwa [map_activation_charge], h.fit.2⟩
    obtain ⟨⟨hframes, hfit⟩, hseats, hlast⟩ := tells_closeMany sample time count hbelow
    simp only [closeMany, read, List.drop_succ_cons]
    refine ⟨⟨by rw [List.map_cons, hframes]; rfl, ?_⟩, hseats, hlast⟩
    refine List.forall_mem_cons.mpr ⟨⟨hnode.symm, ?_, h.fit.1⟩, hfit⟩
    rw [hbelow.length_eq, length_charge]

/-- Frames that open take seats. -/
theorem tells_openMany (time : α) : ∀ {activations : List Activation} {frames : List (OpenFrame α)}
    {seats : List Seat}, Seated fits frames seats → OpenFit fits sample activations seats →
    Tells fits (openMany time activations frames).1
        (read sample (openMany time activations frames).1 seats).1 ∧
      Seated fits (openMany time activations frames).2
        (read sample (openMany time activations frames).1 seats).2
  | [], _, _, h, _ => ⟨⟨rfl, by simp [openMany, read]⟩, h⟩
  | activation :: rest, frames, seats, h, hopen => by
    have hnext : Seated fits (⟨activation, time, 0⟩ :: frames)
        (⟨activation.node, sample⟩ :: seats) :=
      ⟨congrArg (activation.node :: ·) h.nodes, hopen.1, h.fit⟩
    obtain ⟨⟨hframes, hfit⟩, hlast⟩ := tells_openMany time hnext hopen.2
    simp only [openMany, read]
    exact ⟨⟨hframes, hfit⟩, hlast⟩

/-- From one stack to another, if what opens fits on what stays. -/
theorem tells_change (time : α) {old new : List Activation} {frames : List (OpenFrame α)}
    {seats : List Seat} (h : Seated fits frames seats)
    (hopen : OpenFit fits sample (new.drop (shared old new))
      (seats.drop (old.length - shared old new))) :
    Tells fits (change time old new frames).1 (read sample (change time old new frames).1 seats).1 ∧
      Seated fits (change time old new frames).2
        (read sample (change time old new frames).1 seats).2 := by
  obtain ⟨hclosed, hseats, hkept⟩ :=
    tells_closeMany sample time (old.length - shared old new) h
  obtain ⟨hopened, hlast⟩ := tells_openMany time hkept hopen
  simp only [change, read_append, hseats]
  exact ⟨hclosed.append hopened, hlast⟩

/-! ## 3. Samples -/

section Samples

variable {arena : Arena β α} {collector : Option Nat} {nodes : List Nat}

omit [Scalar α] in
/-- The end of a path fits on its beginning. -/
theorem openFit_path (h : arena.WellPlaced) {node : Nat} (hn : node < arena.size)
    {current : Nat} (hsample : nodes[sample]? = some current) (hcall : collector ≠ some current) :
    ∀ {rest before : List Nat} {seats : List Seat}, arena.path node = before ++ rest →
      seats.map Seat.node = before.reverse →
      OpenFit (Seat.Fits arena collector nodes) sample (rest.map .call) seats
  | [], _, _, _, _ => trivial
  | next :: rest, before, seats, hpath, hseats => by
    have hlength : seats.length = before.length := by simpa using congrArg List.length hseats
    refine ⟨⟨current, hsample, ?_⟩, ?_⟩
    · rw [if_neg hcall]
      have hnext : (arena.path node)[before.length]? = some next := by simp [hpath]
      refine ⟨?_, fun outer houter => ?_⟩
      · rw [hlength]
        exact h.depth_getElem?_path node hn _ next hnext
      · obtain ⟨below, rfl⟩ := List.head?_eq_some_iff.mp houter
        have hbefore : before = (below.map Seat.node).reverse ++ [outer.node] := by
          rw [← List.reverse_inj, ← hseats]
          simp
        rw [hbefore, List.append_assoc] at hpath
        have houterPath : (arena.path node)[below.length]? = some outer.node := by simp [hpath]
        refine h.parent_getElem?_path node hn _ _ _ houterPath ?_
        rw [← hlength] at hnext
        exact hnext
    · have hnext : arena.path node = (before ++ [next]) ++ rest := by
        rw [hpath, List.append_assoc]
        rfl
      exact openFit_path h hn hsample hcall hnext (by simp [hseats, Activation.node])

/-- **Every sample leaves all frames where they should be.** -/
theorem tells_sampled (current : Nat × α) (h : arena.WellPlaced) (hroot : collector ≠ some 0)
    {history : List Nat} {rest : List Nat}
    (hnodes : nodes = history.reverse ++ current.1 :: rest)
    {frames : List (OpenFrame α)} {seats : List Seat}
    (hframes : frames.map OpenFrame.activation = (effectiveOf arena collector history).reverse)
    (hn : current.1 < arena.size) (hb : base collector history < arena.size)
    (hseated : Seated (Seat.Fits arena collector nodes) frames seats) :
    Tells (Seat.Fits arena collector nodes) (sampled arena collector history current frames).1
        (read history.length (sampled arena collector history current frames).1 seats).1 ∧
      Seated (Seat.Fits arena collector nodes)
        (sampled arena collector history current frames).2
        (read history.length (sampled arena collector history current frames).1 seats).2 := by
  have hsample : nodes[history.length]? = some current.1 := by simp [hnodes]
  unfold sampled
  split
  · exact ⟨⟨rfl, by simp [read]⟩, hseated⟩
  · rename_i hother
    refine tells_change current.2 hseated ?_
    by_cases hcollector : collector = some current.1
    · -- nothing closes, as the last sample was of a node and its frames stay below
      have hcall : collector ≠ some (history.headD 0) := fun hc =>
        hother (Option.some.inj (hcollector.symm.trans hc))
      have hold : effectiveOf arena collector history =
          callsOf arena (history.headD 0) := by
        rw [effectiveOf_eq h hroot, if_neg hcall, List.append_nil, base_of_ne hcall]
      have hnew : effective arena collector history current.1 =
          callsOf arena (history.headD 0) ++ [.collection current.1] := by
        rw [effective_eq h, if_pos hcollector, base_of_ne hcall]
      rw [hold, hnew, shared_self_append, Nat.sub_self, List.drop_zero, List.drop_left]
      refine ⟨⟨current.1, hsample, ?_⟩, trivial⟩
      rw [if_pos hcollector]
      refine ⟨rfl, ?_⟩
      rw [base_of_ne hcall] at hb
      have hlength : seats.length = arena.depth (history.headD 0) := by
        rw [hseated.length_eq, ← h.length_path _ hb]
        simpa [hold, callsOf] using congrArg List.length hframes
      rw [hlength, hnodes]
      cases history with
      | nil => exact h.rootDepth
      | cons last earlier => simp
    · rw [effective_eq h, if_neg hcollector]
      generalize hk : shared (effectiveOf arena collector history) (callsOf arena current.1) = k
      have hkept : (effectiveOf arena collector history).take k = (callsOf arena current.1).take k :=
        hk ▸ (shared_spec _ _).1
      have hle : k ≤ (effectiveOf arena collector history).length := hk ▸ shared_le_length _ _
      rw [callsOf, ← List.map_drop]
      refine openFit_path h hn hsample hcollector (List.take_append_drop k _).symm ?_
      rw [List.map_drop, hseated.nodes, hframes, ← List.map_drop, List.drop_reverse,
        Nat.sub_sub_self hle, hkept, callsOf, ← List.map_take, List.map_reverse, List.map_map]
      simp [Function.comp_def, Activation.node]

/-- **A replay reports sample by sample, and all its frames sat where they should.** -/
theorem exists_trace (stop : α) (h : arena.WellPlaced) {alike : Nat → Bool} {room : Nat}
    (hcollector : ∀ c, collector = some c → c ≠ 0 ∧ alike c = true)
    (hroom : arena.maxDepth + 2 ≤ room) : ∀ (stream : List (Nat × α)) {state : ReplayState α}
    {history : List Nat} {frames : List (OpenFrame α)} {seats : List Seat},
    Follows arena collector room state history frames →
    Seated (Seat.Fits arena collector nodes) frames seats →
    nodes = history.reverse ++ stream.map Prod.fst →
    (∀ other ∈ history, other < arena.size) → (∀ sample ∈ stream, sample.1 < arena.size) →
    ∃ groups, trace arena collector alike stop stream state = .ok groups ∧
      Tells (Seat.Fits arena collector nodes) groups.flatten
        (readings history.length groups seats)
  | [], state, history, frames, seats, hfollows, hseated, _, hhistory, _ => by
    have hroot : collector ≠ some 0 := fun hzero => (hcollector 0 hzero).1 rfl
    obtain ⟨last, hlast⟩ := exists_finish stop h hroot hfollows hhistory
    obtain ⟨htells, -, -⟩ := tells_closeMany history.length stop
      (effectiveOf arena collector history).length hseated
    refine ⟨_, by rw [trace, hlast, ok_bind]; rfl, ?_⟩
    simpa [readings] using htells
  | (node, time) :: rest, state, history, frames, seats, hfollows, hseated, hnodes, hhistory,
      hstream => by
    have hroot : collector ≠ some 0 := fun hzero => (hcollector 0 hzero).1 rfl
    have hn : node < arena.size := hstream _ List.mem_cons_self
    have hb : base collector history < arena.size := base_lt hhistory h.pos
    obtain ⟨next, hnext, hfollows'⟩ := exists_step node time h hcollector hroom hfollows hhistory hn
    obtain ⟨htells, hseated'⟩ := tells_sampled (node, time) h hroot hnodes
      hfollows.activations hn hb hseated
    obtain ⟨groups, hgroups, hrest⟩ := exists_trace stop h hcollector hroom rest hfollows' hseated'
      (by simp [hnodes]) (List.forall_mem_cons.mpr ⟨hn, hhistory⟩)
      fun sample hsample => hstream sample (List.mem_cons_of_mem _ hsample)
    refine ⟨_, bind_eq_ok.mpr ⟨_, hnext, bind_eq_ok.mpr ⟨groups, hgroups, rfl⟩⟩, ?_⟩
    rw [List.flatten_cons, readings]
    exact htells.append hrest

end Samples
end Seats
end Replay
end SampledProfile
