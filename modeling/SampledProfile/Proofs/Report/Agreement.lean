/-
# The two tables agree

The table of frames comes from a replay, and the table of nodes from a walk through the tree.  A
replay of a window is read sample by sample (`Model.trace`), so that it is known of every frame at
which sample it opened and what was open around it (`Replay.Reading`).

* `Report.nodeRows_filter`: every node but the root has exactly one row in the table of nodes;
* `Report.exists_framesOf`: the frames of any events can be put in order;
* **the row of a frame and the row of its node agree: in the name, in the depth, and in the node that
  lies around the frame** (`Report.tables_agree`).  A collection that was sampled is the exception:
  its depth is that of the node sampled before it.

All that is asked for is that the id of a collection equals itself.  Otherwise two collections that
were sampled one after the other are closed at depths that they did not open at
(`Report.frameRows_shallowCollection`).
-/
import SampledProfile.Proofs.Arena.Levels
import SampledProfile.Proofs.Places
import SampledProfile.Proofs.Replay.Readings
import SampledProfile.Proofs.Samples.Comparisons

namespace SampledProfile

open Outcome

variable {α : Type} [Scalar α]

/-! ## 1. Traces of windows -/

namespace Model

/-- The samples of a window as nodes with their times, and what a replay reports at every one of
them and at the end. -/
def trace (model : Model α) (start stop : Value α) :
    Except Fault (List (Nat × α) × List (List (Event α))) :=
  match model.samples with
  | none => .ok ([], [])
  | some [] => .ok ([], [])
  | some samples => do
    let (stream, last) ← model.window samples start stop
    let stream ← stream.mapM fun sample => do
      return (← requirePosition model.names sample.1, sample.2)
    let groups ← Replay.trace model.arena model.system.collector (isAlike model.arena) last stream
      ⟨⟨Scratch.blank model.scratchSize, 0⟩, 0, none⟩
    return (stream, groups)

/-- A replay reports what its trace says. -/
theorem map_flatten_trace (model : Model α) (start stop : Value α) :
    (model.trace start stop).map (fun traced => traced.2.flatten) = model.replay start stop := by
  unfold trace replay replayWith
  cases model.samples with
  | none => rfl
  | some samples =>
    cases samples with
    | nil => rfl
    | cons sample rest =>
      dsimp only
      cases model.window (sample :: rest) start stop with
      | error fault => rfl
      | ok cut =>
        simp only [ok_bind]
        cases cut.1.mapM fun sample => do
            return (← requirePosition model.names sample.1, sample.2) with
        | error fault => rfl
        | ok stream =>
          have hflatten := Replay.map_flatten_trace model.arena model.system.collector
            (isAlike model.arena) cut.2 stream ⟨⟨Scratch.blank model.scratchSize, 0⟩, 0, none⟩
          simp only [ok_bind, Replay.run, ← hflatten]
          cases Replay.trace model.arena model.system.collector (isAlike model.arena) cut.2 stream
            ⟨⟨Scratch.blank model.scratchSize, 0⟩, 0, none⟩ <;> rfl

/-- **Every window of a sound model has a trace, and all frames of it sat where they should.** -/
theorem exists_trace {model : Model α} (h : model.Sound)
    (halike : ∀ position, model.system.collector = some position →
      isAlike model.arena position = true) (start stop : Option α) :
    ∃ stream groups,
      model.trace (.ofOption (start.map .num)) (.ofOption (stop.map .num)) =
        .ok (stream, groups) ∧
      (∀ sample ∈ stream, sample.1 < model.arena.size) ∧
      Replay.Tells (Replay.Seat.Fits model.arena model.system.collector (stream.map Prod.fst))
        groups.flatten (Replay.readings 0 groups []) := by
  have hnone : Replay.Tells (Replay.Seat.Fits model.arena model.system.collector [])
      ([] : List (List (Event α))).flatten (Replay.readings 0 [] []) := ⟨rfl, nofun⟩
  unfold trace
  split
  · exact ⟨[], [], rfl, nofun, hnone⟩
  · exact ⟨[], [], rfl, nofun, hnone⟩
  · rename_i samples _ hsamples
    obtain ⟨nodes, hnodes, hlt⟩ := h.exists_nodes hsamples
    obtain ⟨last, hwindow, -⟩ := window_eq (h.times samples hsamples) start stop
    have hslice := mapM_slice_eq hnodes model.timestamps (model.firstIndex start)
      (model.stopIndex samples.length start stop)
    have hcollector : ∀ position, model.system.collector = some position →
        position ≠ 0 ∧ isAlike model.arena position = true := fun position hposition =>
      ⟨fun hzero => h.collector_ne_zero (hzero ▸ hposition), halike position hposition⟩
    have hstream : ∀ sample ∈ ((nodes.zip model.timestamps).take
        (model.stopIndex samples.length start stop)).drop (model.firstIndex start),
        sample.1 < model.arena.size := fun sample hsample =>
      hlt _ (List.of_mem_zip (List.mem_of_mem_take (List.mem_of_mem_drop hsample))).1
    have hblank : Replay.Follows model.arena model.system.collector (model.arena.maxDepth + 2)
        ⟨⟨Scratch.blank model.scratchSize, 0⟩, 0, none⟩ [] ([] : List (OpenFrame α)) := by
      refine ⟨⟨rfl, ?_, ?_, trivial⟩, rfl, ?_, rfl⟩
      · exact (Nat.le_succ _).trans_eq (Scratch.size_starts_blank _).symm
      · exact (Nat.le_succ _).trans_eq (Scratch.size_inner_blank _).symm
      · simp [h.collector_ne_zero]
    have hempty : ∀ fits, Replay.Seated fits ([] : List (OpenFrame α)) [] :=
      fun _ => ⟨rfl, trivial⟩
    obtain ⟨groups, hgroups, htells⟩ := Replay.exists_trace last h.wellPlaced hcollector
      (Nat.le_refl _) _ hblank (hempty _) rfl nofun hstream
    refine ⟨_, groups, ?_, hstream, htells⟩
    rw [hwindow, ok_bind]
    exact bind_eq_ok.mpr ⟨_, hslice, bind_eq_ok.mpr ⟨groups, hgroups, rfl⟩⟩

end Model

namespace Report

/-! ## 2. Rows -/

/-- **Of the names of nodes every one but that of the root stands in one row.** -/
theorem nodeRows_filter {model : Model α} (hwell : model.arena.WellPlaced) {position : Nat}
    {slot : Slot (Call α) α} (hslot : model.arena[position]? = some slot) (hpos : 0 < position)
    (hname : ∃ key, slot.label.id.key = .ok key)
    (hunique : ∀ place < model.arena.size,
      slot.label.id.SameName (Model.idAt model.arena place) → place = position) :
    ((nodeRows model).filter fun row => decide ((row.get "node_id").SameName slot.label.id)) =
      [nodeRow model.arena slot] := by
  have hlt := (Array.getElem?_eq_some_iff.mp hslot).1
  have hlisted : model.arena.levelOrder.filter (fun place => decide (place = position)) =
      [position] := by
    have hcount := hwell.nodup_levelOrder.count (a := position)
    rw [if_pos (hwell.mem_levelOrder.mpr ⟨hpos, hlt⟩)] at hcount
    have hfilter := List.filter_eq (l := model.arena.levelOrder) position
    rw [hcount] at hfilter
    simpa [eq_comm] using hfilter
  have hrow : ∀ place ∈ model.arena.levelOrder,
      (model.arena[place]?.map (nodeRow model.arena)).filter
          (fun row => decide ((row.get "node_id").SameName slot.label.id)) =
        if decide (place = position) = true then
          model.arena[place]?.map (nodeRow model.arena) else none := by
    intro place hplace
    have hlt := (hwell.mem_levelOrder.mp hplace).2
    have hget := Array.getElem?_eq_getElem hlt
    rw [hget, Option.map_some]
    by_cases heq : place = position
    · subst heq
      obtain rfl := Option.some.inj (hget.symm.trans hslot)
      obtain ⟨key, hkey⟩ := hname
      rw [if_pos (decide_eq_true rfl)]
      exact Option.filter_some_pos (decide_eq_true ⟨key, hkey, hkey⟩)
    · have hother : ¬ ((model.arena[place]).label.id).SameName slot.label.id := fun hsame =>
        heq (hunique place hlt (by rw [Model.idAt, hget]; exact hsame.symm))
      rw [decide_eq_false heq, if_neg Bool.false_ne_true]
      exact Option.filter_some_neg (decide_eq_false hother)
  rw [nodeRows, List.filter_filterMap, List.filterMap_congr hrow, ← List.filterMap_filter, hlisted]
  simp [hslot]

/-- Frames can be put in order. -/
theorem exists_framesOf (events : List (Event α)) :
    ∃ frames, framesOf events = .ok frames ∧ frames.Perm (events.filterMap closedFrame?) := by
  have hsome : ∃ frames, framesOf events = .ok frames := by
    have hbelow : Runs.AsksAs (fun _ => False)
        (fun a b : FrameRow α => .ok (opensBefore a b)) (fun _ => True) :=
      fun _ _ _ _ => .ok _ _
    unfold framesOf Samples.inOrder
    split
    · exact ⟨_, rfl⟩
    · obtain ⟨frames, hframes, -⟩ :=
        (Runs.failsAs_sort hbelow fun _ _ => trivial).exists_ok
      exact ⟨frames, hframes⟩
  obtain ⟨frames, hframes⟩ := hsome
  exact ⟨frames, hframes, Samples.perm_of_inOrder hframes⟩

/-! ## 3. A frame and its node -/

/-- What the row of a node says of a frame of the node, which was read in a replay of some
samples. -/
structure Agrees (model : Model α) (stream : List (Nat × α)) (reading : Replay.Reading α)
    (row : Fields α) : Prop where
  /-- The row is the only one with the id that the frame has. -/
  only : ((nodeRows model).filter fun row => decide ((row.get "node_id").SameName
    ((frameRow model.arena reading.frame).get "node_id"))) = [row]
  name : row.get "function_name" = (frameRow model.arena reading.frame).get "function_name"
  /-- A frame that opened at a sample of the collection lies as deep as the node sampled before.
  Any other lies one less deep than its node, directly on a frame of the node's parent. -/
  depth : ∃ node time, stream[reading.seat.sample]? = some (node, time) ∧
    if model.system.collector = some node then
      reading.frame.depth =
        if reading.seat.sample = 0 then 0
        else model.arena.depth ((stream.map Prod.fst).getD (reading.seat.sample - 1) 0)
    else
      row.get "depth" = .nat (reading.frame.depth + 1) ∧
        (0 < reading.frame.depth → ∃ outer rest, reading.around = outer :: rest ∧
          row.get "parent_id" = Model.idAt model.arena outer.node)

/-- A frame that sat where it should agrees with its node. -/
theorem exists_agrees {recording : Recording α} {keepNatives : Bool} {model : Model α}
    (h : Model.ofRecording recording keepNatives = .ok model) {stream : List (Nat × α)}
    (hstream : ∀ sample ∈ stream, sample.1 < model.arena.size) {reading : Replay.Reading α}
    (hfits : reading.Fits
      (Replay.Seat.Fits model.arena model.system.collector (stream.map Prod.fst))) :
    ∃ row, Agrees model stream reading row := by
  have hsound := Model.sound_of_ofRecording h
  have hwell := hsound.wellPlaced
  obtain ⟨hnode, hdepth, current, hcurrent, hseat⟩ := hfits
  rw [List.getElem?_map] at hcurrent
  obtain ⟨⟨_, time⟩, hsample, rfl⟩ := Option.map_eq_some_iff.mp hcurrent
  have hcurrentLt := hstream _ (List.mem_of_getElem? hsample)
  -- the frame is of a node, and this is not the root
  obtain ⟨hpos, hlt⟩ : 0 < reading.frame.node ∧ reading.frame.node < model.arena.size := by
    rw [hnode]
    split at hseat
    · rename_i hcollector
      refine ⟨Nat.pos_of_ne_zero fun hzero => ?_, hseat.1 ▸ hcurrentLt⟩
      rw [hseat.1] at hzero
      exact hsound.collector_ne_zero (hzero ▸ hcollector)
    · refine ⟨hwell.pos_of_depth_pos (by omega), ?_⟩
      by_contra hge
      have hnone : model.arena.depth reading.seat.node = 0 := by
        rw [Arena.depth, Array.getElem?_eq_none (Nat.le_of_not_lt hge)]
        rfl
      omega
  obtain ⟨slot, hslot⟩ : ∃ slot, model.arena[reading.frame.node]? = some slot :=
    ⟨_, Array.getElem?_eq_getElem hlt⟩
  have hid : Model.idAt model.arena reading.frame.node = slot.label.id := by
    rw [Model.idAt, hslot]
    rfl
  obtain ⟨position, -, hposition, -, hunique⟩ := Model.byId_of_isKept h
    (((Model.labels_of_ofRecording h).2 _).mp (Model.idAt_mem hlt))
  have hname := Model.exists_key_idAt hsound.names reading.frame.node
  rw [hid] at hname hunique
  have hsame : ∀ place < model.arena.size,
      slot.label.id.SameName (Model.idAt model.arena place) → place = reading.frame.node := by
    intro place hplace hsame
    obtain ⟨key, hkey⟩ := hname
    rw [hunique place hplace hsame,
      hunique reading.frame.node hlt (by rw [hid]; exact ⟨key, hkey, hkey⟩)]
  refine ⟨nodeRow model.arena slot, ?_, ?_, _, time, hsample, ?_⟩
  · have hrows := nodeRows_filter hwell hslot hpos hname hsame
    rwa [← hid] at hrows
  · show slot.label.frame.functionName = Value.ofOption _
    rw [hslot]
    rfl
  · rw [hdepth]
    split at hseat
    · rename_i hcollector
      rw [if_pos hcollector]
      exact hseat.2
    · rename_i hcall
      rw [if_neg hcall]
      obtain ⟨hown, hparent⟩ := hseat
      rw [← hnode, Arena.depth, hslot] at hown
      refine ⟨congrArg Value.nat hown, fun hdeep => ?_⟩
      obtain ⟨outer, rest, haround⟩ := List.exists_cons_of_length_pos hdeep
      refine ⟨outer, rest, haround, ?_⟩
      have houter := hparent outer (by rw [haround]; rfl)
      rw [← hnode, Arena.parent?, hslot] at houter
      show Value.ofOption (slot.parent.map _) = _
      rw [show slot.parent = some outer.node from houter]
      rfl

/-- **The row of every frame of a window agrees with the row of its node.** -/
theorem tables_agree {profile : Value α} {keepNatives : Bool} {model : Model α}
    (h : Model.load profile keepNatives = .ok model)
    (halike : ∀ position, model.system.collector = some position →
      Model.isAlike model.arena position = true) (start stop : Option α) :
    ∃ stream groups rows,
      model.trace (.ofOption (start.map .num)) (.ofOption (stop.map .num)) =
        .ok (stream, groups) ∧
      model.replay (.ofOption (start.map .num)) (.ofOption (stop.map .num)) =
        .ok groups.flatten ∧
      frameRows model (.ofOption (start.map .num)) (.ofOption (stop.map .num)) = .ok rows ∧
      rows.Perm ((Replay.readings 0 groups []).map fun reading =>
        frameRow model.arena reading.frame) ∧
      ∀ reading ∈ Replay.readings 0 groups [], ∃ row, Agrees model stream reading row := by
  have hsound := Model.sound_of_load h
  obtain ⟨stream, groups, htrace, hstream, htells⟩ :=
    Model.exists_trace hsound halike start stop
  have hreplay : model.replay (.ofOption (start.map .num)) (.ofOption (stop.map .num)) =
      .ok groups.flatten := by
    rw [← Model.map_flatten_trace, htrace]
    rfl
  obtain ⟨frames, hframes, hperm⟩ := exists_framesOf groups.flatten
  refine ⟨stream, groups, frames.map (frameRow model.arena), htrace, hreplay, ?_, ?_, ?_⟩
  · rw [frameRows, hreplay, ok_bind, hframes]
    rfl
  · rw [← htells.frames] at hperm
    simpa [Function.comp_def] using hperm.map (frameRow model.arena)
  · intro reading hreading
    obtain ⟨recording, -, hrecording⟩ := bind_eq_ok.mp h
    exact exists_agrees hrecording hstream (htells.fit reading hreading)

/-- A profile of a call in a call, with two samples of a garbage collection in between. -/
def interruptedCall (id : Value Number) : Value Number :=
  .obj [
    ("nodes", .list [
      .obj [("id", .int 1), ("children", .list [.int 2, id]), ("functionName", .str "(root)")],
      .obj [("id", .int 2), ("children", .list [.int 3]), ("functionName", .str "f")],
      .obj [("id", .int 3), ("functionName", .str "g")],
      .obj [("id", id), ("functionName", .str Model.collectorName)]]),
    ("samples", .list [.int 3, id, id, .int 3]),
    ("endTime", .int 1000)]

theorem tables_agree_interruptedCall :
    ∃ model stream groups rows, Model.load (interruptedCall (.int 4)) false = .ok model ∧
      (∀ position, model.system.collector = some position →
        Model.isAlike model.arena position = true) ∧
      model.trace .null .null = .ok (stream, groups) ∧
      model.replay .null .null = .ok groups.flatten ∧
      frameRows model .null .null = .ok rows ∧
      rows.Perm ((Replay.readings 0 groups []).map fun reading =>
        frameRow model.arena reading.frame) ∧
      ∀ reading ∈ Replay.readings 0 groups [], ∃ row, Agrees model stream reading row := by
  have hchecked : (do
      let model ← Model.load (interruptedCall (.int 4)) false
      return model.system.collector.all (Model.isAlike model.arena)) = .ok true := by
    decide +kernel
  obtain ⟨model, hload, hchecks⟩ := bind_eq_ok.mp hchecked
  have halike : ∀ position, model.system.collector = some position →
      Model.isAlike model.arena position = true := fun position hposition => by
    simpa [hposition] using pure_eq_ok.mp hchecks
  obtain ⟨stream, groups, rows, h⟩ := tables_agree hload halike none none
  exact ⟨model, stream, groups, rows, hload, halike, h⟩

/-- **Where the id of a collection has no value, a collection on top of a call in a call has a row
that says it lay at the bottom.** -/
theorem frameRows_shallowCollection :
    ∃ model stream groups reading rows,
      Model.load (interruptedCall (.num (.undefined 0))) false = .ok model ∧
      model.trace .null .null = .ok (stream, groups) ∧
      reading ∈ Replay.readings 0 groups [] ∧ frameRows model .null .null = .ok rows ∧
      frameRow model.arena reading.frame ∈ rows ∧ ∀ row, ¬ Agrees model stream reading row := by
  have hread : (do
      let model ← Model.load (interruptedCall (.num (.undefined 0))) false
      let (stream, groups) ← model.trace .null .null
      let reading ← ((Replay.readings 0 groups [])[1]?).elim (.error Fault.outOfRange) .ok
      let nodes := stream.map Prod.fst
      return (model.system.collector, nodes, reading.seat.sample, reading.frame.depth,
        model.arena.depth (nodes.getD (reading.seat.sample - 1) 0))) =
      .ok (some 1, [3, 1, 1, 3], 1, 0, 2) := by
    decide +kernel
  obtain ⟨model, hload, hread⟩ := bind_eq_ok.mp hread
  obtain ⟨⟨stream, groups⟩, htrace, hread⟩ := bind_eq_ok.mp hread
  obtain ⟨reading, hreading, hread⟩ := bind_eq_ok.mp hread
  simp only [pure_eq_ok, Prod.mk.injEq] at hread
  obtain ⟨hcollector, hnodes, hsample, hdepth, hbefore⟩ := hread
  have hmem : reading ∈ Replay.readings 0 groups [] := by
    cases hget : (Replay.readings 0 groups [])[1]? with
    | none => simp [hget] at hreading
    | some found =>
      rw [hget] at hreading
      obtain rfl := Except.ok.inj hreading
      exact List.mem_of_getElem? hget
  have hreplay : model.replay .null .null = .ok groups.flatten := by
    rw [← Model.map_flatten_trace, htrace]
    rfl
  obtain ⟨frames, hframes, hperm⟩ := exists_framesOf groups.flatten
  refine ⟨model, stream, groups, reading, frames.map (frameRow model.arena), hload, htrace, hmem,
    ?_, ?_, ?_⟩
  · rw [frameRows, hreplay, ok_bind, hframes]
    rfl
  · exact List.mem_map_of_mem (hperm.mem_iff.mpr (Replay.mem_of_mem_readings hmem))
  · rintro row ⟨-, -, node, time, hcurrent, hplace⟩
    have hnode : (stream.map Prod.fst)[reading.seat.sample]? = some node := by
      rw [List.getElem?_map, hcurrent]
      rfl
    rw [hnodes, hsample] at hnode
    obtain rfl : 1 = node := Option.some.inj hnode
    rw [if_pos hcollector, hdepth, hbefore, hsample] at hplace
    cases hplace

end Report
end SampledProfile
