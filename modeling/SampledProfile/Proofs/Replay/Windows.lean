/-
# Replays of windows

A window of time selects the samples from one index (`Model.firstIndex`) up to another
(`Model.stopIndex`), and the time at the latter is when the last sample ends.  The walk that takes
samples until one is too late selects the same ones (`takeWhile_drop_eq`).

* `Model.exists_replayWith`: with buffers that have two levels more than the tree is deep, a sound
  model has a replay of every window, and it reports what the effective stacks say;
* `Model.replay_eq_replayed`: so it is for every profile that is loaded.

All that is asked for is that the id of a collection equals itself.  Otherwise there is no telling
that two of them in a row are one, and each opens a frame (`Model.replay_undefined_collections`).
-/
import SampledProfile.Numeric.Number
import SampledProfile.Proofs.Loaded
import SampledProfile.Proofs.Replay.Refinement

namespace SampledProfile

open Outcome

/-! ## 1. Slices -/

section Slices

variable {γ : Type}

/-- The first index from one on and below the length at which a list has what a test asks for; the
length if there is none. -/
def indexFrom (test : γ → Bool) (entries : List γ) (first : Nat) : Nat :=
  ((List.range' first (entries.length - first)).find? fun index =>
    entries[index]?.any test).getD entries.length

theorem indexFrom_le (test : γ → Bool) (entries : List γ) (first : Nat) :
    indexFrom test entries first ≤ entries.length := by
  unfold indexFrom
  cases hfind : (List.range' first (entries.length - first)).find? fun index =>
      entries[index]?.any test with
  | none => exact Nat.le_refl _
  | some index =>
    have hmem := List.mem_range'_1.mp (List.mem_of_find?_eq_some hfind)
    simp only [Option.getD_some]
    omega

theorem indexFrom_of_le {test : γ → Bool} {entries : List γ} {first : Nat}
    (h : entries.length ≤ first) : indexFrom test entries first = entries.length := by
  rw [indexFrom, Nat.sub_eq_zero_of_le h]
  rfl

/-- Before the length either the test is passed at once or it is a matter of what comes after. -/
theorem indexFrom_of_lt {test : γ → Bool} {entries : List γ} {first : Nat}
    (h : first < entries.length) :
    indexFrom test entries first =
      if test entries[first] then first else indexFrom test entries (first + 1) := by
  have hcount : entries.length - first = entries.length - (first + 1) + 1 := by omega
  rw [indexFrom, hcount, List.range'_succ, List.find?_cons, List.getElem?_eq_getElem h,
    Option.any_some]
  cases test entries[first] <;> rfl

/-- A test that is passed from some index on, and not before. -/
theorem indexFrom_eq {test : γ → Bool} {entries : List γ} {bound : Nat}
    (htest : ∀ index entry, entries[index]? = some entry → (test entry = true ↔ bound ≤ index)) :
    ∀ (fuel first : Nat), entries.length ≤ first + fuel →
      indexFrom test entries first = min entries.length (max first bound)
  | 0, first, h => by
    have hle : entries.length ≤ first := h
    rw [indexFrom_of_le hle]
    omega
  | fuel + 1, first, h => by
    by_cases hlt : first < entries.length
    · have hfirst := htest first entries[first] (List.getElem?_eq_getElem hlt)
      rw [indexFrom_of_lt hlt]
      split
      · rename_i hpassed
        have hbound := hfirst.mp hpassed
        omega
      · rename_i hfailed
        have hbound : ¬ bound ≤ first := fun hle => hfailed (hfirst.mpr hle)
        rw [indexFrom_eq htest fuel (first + 1) (by omega)]
        omega
    · rw [indexFrom_of_le (Nat.le_of_not_lt hlt)]
      omega

/-- Taking entries until one passes a test gives a slice. -/
theorem takeWhile_drop_eq (test : γ → Bool) (entries : List γ) : ∀ (fuel first : Nat),
    entries.length ≤ first + fuel →
    (entries.drop first).takeWhile (fun entry => !test entry) =
        (entries.take (indexFrom test entries first)).drop first ∧
      (first ≤ entries.length → first ≤ indexFrom test entries first)
  | 0, first, h => by
    have hle : entries.length ≤ first := h
    rw [indexFrom_of_le hle, List.take_length, List.drop_eq_nil_of_le hle]
    exact ⟨rfl, id⟩
  | fuel + 1, first, h => by
    by_cases hlt : first < entries.length
    · rw [indexFrom_of_lt hlt, List.drop_eq_getElem_cons hlt, List.takeWhile_cons]
      cases htest : test entries[first] with
      | true =>
        simp
      | false =>
        obtain ⟨hrest, hle⟩ := takeWhile_drop_eq test entries fuel (first + 1) (by omega)
        have hnext := hle hlt
        refine ⟨?_, fun _ => by simpa using Nat.le_of_succ_le hnext⟩
        simp only [Bool.not_false, if_true, Bool.false_eq_true, if_false, hrest]
        rw [List.drop_eq_getElem_cons (i := first) (by rw [List.length_take]; omega),
          List.getElem_take]
    · have hle : entries.length ≤ first := Nat.le_of_not_lt hlt
      rw [indexFrom_of_le hle, List.take_length, List.drop_eq_nil_of_le hle]
      exact ⟨rfl, id⟩

theorem indexFrom_map {δ : Type} (f : δ → γ) (test : γ → Bool) (entries : List δ) (first : Nat) :
    indexFrom test (entries.map f) first = indexFrom (test ∘ f) entries first := by
  simp only [indexFrom, List.length_map, List.getElem?_map, Option.any_map]
  rfl

end Slices

/-! ## 2. Windows of a model -/

/-- Is the value a rational number? -/
def Magnitude.isFinite : Magnitude → Bool
  | .finite _ => true
  | _ => false

namespace Model

variable {α : Type} [Scalar α]

/-- Is a time too late for a window?  A window without a stop goes on to infinity. -/
def stopsAt (stop : Option α) (time : α) : Bool :=
  (Scalar.exact time).ge ((stop.map Scalar.exact).getD (.infinite false))

/-- The index at which a window starts. -/
def firstIndex (model : Model α) (start : Option α) : Nat :=
  start.elim 0 (firstFrom model.timestamps)

/-- The first index of one of so many samples, from the start of a window on, at which the window
stops; the number of samples if there is none. -/
def stopIndex (model : Model α) (count : Nat) (start stop : Option α) : Nat :=
  indexFrom (stopsAt stop) (model.timestamps.take count) (model.firstIndex start)

/-- The nodes of a window with their times. -/
def streamOf (model : Model α) (nodes : List Nat) (start stop : Option α) : List (Nat × α) :=
  ((nodes.zip model.timestamps).take (model.stopIndex nodes.length start stop)).drop
    (model.firstIndex start)

variable {model : Model α}

theorem stopIndex_le (model : Model α) (samples : List (Value α)) (start stop : Option α) :
    model.stopIndex samples.length start stop ≤ samples.length :=
  Nat.le_trans (indexFrom_le _ _ _) (by rw [List.length_take]; omega)

/-- What a window takes, and when that ends. -/
theorem window_ofOption (model : Model α) (samples : List (Value α)) (start stop : Option α) :
    let stream := ((samples.zip model.timestamps).drop (model.firstIndex start)).takeWhile
      fun sample => !stopsAt stop sample.2
    model.window samples (.ofOption (start.map .num)) (.ofOption (stop.map .num)) =
      .ok (stream, ((model.timestamps[model.firstIndex start + stream.length]?).orElse fun _ =>
        model.finish.number?).getD 0) := by
  let rest := (samples.zip model.timestamps).drop (model.firstIndex start)
  have hwindow : model.window samples (.ofOption (start.map .num)) (.ofOption (stop.map .num)) = do
      let stream ←
        if rest.isEmpty then pure []
        else do
          let stop ← stopOf (.ofOption (stop.map .num))
          pure (rest.takeWhile fun sample => !(Scalar.exact sample.2).ge stop)
      let last := model.timestamps[model.firstIndex start + stream.length]?
      return (stream, (last.orElse fun _ => model.finish.number?).getD 0) := by
    cases start <;> rfl
  have hstop : stopOf (Value.ofOption (stop.map .num)) =
      .ok ((stop.map Scalar.exact).getD (.infinite false)) := by
    cases stop <;> rfl
  rw [hwindow]
  dsimp only
  split
  · rename_i hempty
    rw [show (samples.zip model.timestamps).drop (model.firstIndex start) = [] from
      List.isEmpty_iff.mp hempty]
    rfl
  · rw [hstop]
    rfl

/-- What a window takes is a slice of the samples, which ends at the index at which it stops. -/
theorem takeWhile_eq_slice {samples : List (Value α)}
    (htimes : model.timestamps.length = samples.length + 1) (start stop : Option α) :
    ((samples.zip model.timestamps).drop (model.firstIndex start)).takeWhile
        (fun sample => !stopsAt stop sample.2) =
      ((samples.zip model.timestamps).take
        (model.stopIndex samples.length start stop)).drop (model.firstIndex start) ∧
    (model.firstIndex start ≤ samples.length →
      model.firstIndex start ≤ model.stopIndex samples.length start stop) := by
  have hzip : (samples.zip model.timestamps).length = samples.length := by
    rw [List.length_zip, htimes]
    omega
  have hindex : indexFrom (stopsAt stop ∘ Prod.snd) (samples.zip model.timestamps)
      (model.firstIndex start) = model.stopIndex samples.length start stop := by
    rw [← indexFrom_map, Samples.map_snd_zip_eq, stopIndex, htimes,
      Nat.min_eq_left (Nat.le_succ _)]
  have hslice := takeWhile_drop_eq (stopsAt stop ∘ Prod.snd) (samples.zip model.timestamps)
    samples.length (model.firstIndex start) (by omega)
  rwa [hindex, hzip] at hslice

/-- **A window is a slice of the samples, and ends at the time behind it.** -/
theorem window_eq {samples : List (Value α)}
    (htimes : model.timestamps.length = samples.length + 1) (start stop : Option α) :
    ∃ last, model.window samples (.ofOption (start.map .num)) (.ofOption (stop.map .num)) =
        .ok (((samples.zip model.timestamps).take
          (model.stopIndex samples.length start stop)).drop (model.firstIndex start), last) ∧
      (model.firstIndex start ≤ samples.length →
        model.timestamps[model.stopIndex samples.length start stop]? = some last) := by
  obtain ⟨hslice, hle⟩ := takeWhile_eq_slice htimes start stop
  have hwindow := model.window_ofOption samples start stop
  rw [hslice] at hwindow
  refine ⟨_, hwindow, fun hwithin => ?_⟩
  have hfirst := hle hwithin
  have hlast := stopIndex_le model samples start stop
  have hlength : model.firstIndex start + (((samples.zip model.timestamps).take
      (model.stopIndex samples.length start stop)).drop (model.firstIndex start)).length =
        model.stopIndex samples.length start stop := by
    rw [List.length_drop, List.length_take, List.length_zip, htimes]
    omega
  rw [hlength, List.getElem?_eq_getElem (by omega)]
  rfl

theorem stopsAt_of_finite {time : α} (h : (Scalar.exact time).isFinite = true) :
    stopsAt none time = false := by
  show (Scalar.exact time).ge (.infinite false) = false
  cases hvalue : Scalar.exact time with
  | finite value => rfl
  | infinite negative =>
    rw [hvalue] at h
    cases h
  | undefined mark =>
    rw [hvalue] at h
    cases h

/-- A window that stops before it starts is empty. -/
theorem streamOf_eq_nil {nodes : List Nat} {start stop : Option α}
    (h : model.stopIndex nodes.length start stop ≤ model.firstIndex start) :
    model.streamOf nodes start stop = [] := by
  refine List.drop_eq_nil_of_le ?_
  rw [List.length_take]
  omega

/-- With finite times a window without bounds does not stop before the last sample. -/
theorem stopIndex_of_finite
    (hfinite : ∀ time ∈ model.timestamps, (Scalar.exact time).isFinite = true) {count : Nat}
    (htimes : model.timestamps.length = count + 1) : model.stopIndex count none none = count := by
  have hnever : ∀ index time, (model.timestamps.take count)[index]? = some time →
      (stopsAt none time = true ↔ count ≤ index) := by
    intro index time htime
    have hlt := (List.getElem?_eq_some_iff.mp htime).1
    rw [List.length_take] at hlt
    rw [stopsAt_of_finite (hfinite time (List.mem_of_mem_take (List.mem_of_getElem? htime)))]
    simp only [Bool.false_eq_true, false_iff]
    omega
  rw [stopIndex, indexFrom_eq hnever count _ (by rw [List.length_take]; omega), List.length_take]
  omega

/-- Such a window has all samples. -/
theorem streamOf_of_finite
    (hfinite : ∀ time ∈ model.timestamps, (Scalar.exact time).isFinite = true) {nodes : List Nat}
    (htimes : model.timestamps.length = nodes.length + 1) :
    model.streamOf nodes none none = nodes.zip model.timestamps := by
  rw [streamOf, stopIndex_of_finite hfinite htimes]
  show ((nodes.zip model.timestamps).take nodes.length).drop 0 = _
  rw [List.drop_zero, List.take_of_length_le (by rw [List.length_zip]; omega)]

/-! ## 3. Replays -/

omit [Scalar α] in
theorem forall₂_zip {β γ : Type} {R : β → γ → Prop} {xs : List β} {ys : List γ}
    (h : List.Forall₂ R xs ys) : ∀ times : List α,
    List.Forall₂ (fun x y => R x.1 y.1 ∧ x.2 = y.2) (xs.zip times) (ys.zip times) := by
  induction h with
  | nil => exact fun _ => .nil
  | cons hhead _ ih =>
    intro times
    cases times with
    | nil => exact .nil
    | cons time rest => exact .cons ⟨hhead, rfl⟩ (ih rest)

/-- The nodes of all samples are there. -/
theorem Sound.exists_nodes (h : model.Sound) {samples : List (Value α)}
    (hsamples : model.samples = some samples) :
    ∃ nodes, samples.mapM (requirePosition model.names) = .ok nodes ∧
      ∀ node ∈ nodes, node < model.arena.size := by
  have hall : ∀ id ∈ samples, ∃ position < model.arena.size,
      requirePosition model.names id = .ok position := fun id hid => by
    obtain ⟨call, hcall, rfl⟩ := h.samples samples hsamples id hid
    exact exists_position h.names hcall
  obtain ⟨nodes, hnodes⟩ := exists_mapM_of_forall fun id hid => (hall id hid).imp fun _ => And.right
  refine ⟨nodes, hnodes, fun node hnode => ?_⟩
  obtain ⟨id, hid, hfound⟩ := mem_of_mapM hnodes hnode
  obtain ⟨position, hlt, hposition⟩ := hall id hid
  rw [hposition] at hfound
  exact Except.ok.inj hfound ▸ hlt

/-- The nodes of the samples of a window are the window of the nodes. -/
theorem mapM_slice_eq {names : List (Key × Nat)} {samples : List (Value α)} {nodes : List Nat}
    (h : samples.mapM (requirePosition names) = .ok nodes) (times : List α) (first stop : Nat) :
    (((samples.zip times).take stop).drop first).mapM (fun sample => do
        return (← requirePosition names sample.1, sample.2)) =
      .ok (((nodes.zip times).take stop).drop first) := by
  have hzip := forall₂_zip (mapM_eq_ok_iff.mp h) times
  refine mapM_eq_ok_iff.mpr ((List.forall₂_drop first (List.forall₂_take stop hzip)).imp ?_)
  rintro ⟨id, time⟩ ⟨node, _⟩ ⟨hid, rfl⟩
  exact bind_eq_ok.mpr ⟨node, hid, rfl⟩

/-- A run without samples only closes what is open, and nothing is. -/
theorem run_nil {β : Type} {arena : Arena β α} (h : arena.WellPlaced) (collector : Option Nat)
    (alike : Nat → Bool) (last : α) (scratch : Scratch α) :
    Replay.run arena collector alike [] last scratch = .ok (scratch, []) := by
  simp [Replay.run, Replay.runFrom, Replay.finish, Replay.resume, Arena.upwards, h.rootDepth,
    Replay.closeAll, bind, Except.bind, pure, Except.pure]

/-- Without samples nothing is replayed. -/
theorem replayWith_of_none (hsamples : model.samples = none) (scratch : Scratch α)
    (start stop : Value α) : model.replayWith scratch start stop = .ok (scratch, []) := by
  rw [replayWith, hsamples]

/-- A replay of a window runs through its nodes. -/
theorem replayWith_eq_run (h : model.Sound) {samples : List (Value α)}
    (hsamples : model.samples = some samples) {nodes : List Nat}
    (hnodes : samples.mapM (requirePosition model.names) = .ok nodes) (start stop : Option α) :
    ∃ last, (∀ scratch,
        model.replayWith scratch (.ofOption (start.map .num)) (.ofOption (stop.map .num)) =
          Replay.run model.arena model.system.collector (isAlike model.arena)
            (model.streamOf nodes start stop) last scratch) ∧
      (model.firstIndex start ≤ samples.length →
        model.timestamps[model.stopIndex samples.length start stop]? = some last) := by
  have hcount : nodes.length = samples.length := length_of_mapM hnodes
  obtain ⟨last, hwindow, hlast⟩ := window_eq (h.times samples hsamples) start stop
  refine ⟨last, fun scratch => ?_, hlast⟩
  rw [replayWith, hsamples]
  cases samples with
  | nil =>
    obtain rfl : nodes = [] := List.length_eq_zero_iff.mp hcount
    have hstream : model.streamOf [] start stop = [] := by simp [streamOf]
    rw [hstream, run_nil h.wellPlaced]
  | cons first rest =>
    simp only [hwindow, bind, Except.bind]
    have hslice := mapM_slice_eq hnodes model.timestamps (model.firstIndex start)
      (model.stopIndex (first :: rest).length start stop)
    simp only [bind, Except.bind] at hslice
    rw [hslice, streamOf, hcount]

/-- **A sound model has a replay of every window, with any buffers that are large enough, and it
reports what the effective stacks say.** -/
theorem exists_replayWith (h : model.Sound)
    (halike : ∀ position, model.system.collector = some position →
      isAlike model.arena position = true)
    {samples : List (Value α)} (hsamples : model.samples = some samples) (start stop : Option α) :
    ∃ nodes last, samples.mapM (requirePosition model.names) = .ok nodes ∧
      model.timestamps[model.stopIndex samples.length start stop]? = some last ∧
      ∀ scratch : Scratch α, model.arena.maxDepth + 2 ≤ scratch.starts.size →
        model.arena.maxDepth + 2 ≤ scratch.inner.size →
        ∃ left, model.replayWith scratch (.ofOption (start.map .num)) (.ofOption (stop.map .num)) =
          .ok (left, replayed model.arena model.system.collector last []
            (model.streamOf nodes start stop) []) := by
  obtain ⟨nodes, hnodes, hlt⟩ := h.exists_nodes hsamples
  obtain ⟨time, hreplay, htime⟩ := replayWith_eq_run h hsamples hnodes start stop
  have hcollector : ∀ position, model.system.collector = some position →
      position ≠ 0 ∧ isAlike model.arena position = true := fun position hposition =>
    ⟨fun hzero => h.collector_ne_zero (hzero ▸ hposition), halike position hposition⟩
  have hstream : ∀ sample ∈ model.streamOf nodes start stop, sample.1 < model.arena.size :=
    fun sample hsample => hlt _ (List.of_mem_zip
      (List.mem_of_mem_take (List.mem_of_mem_drop hsample))).1
  by_cases hwithin : model.firstIndex start ≤ samples.length
  · refine ⟨nodes, time, hnodes, htime hwithin, fun scratch hstarts hinner => ?_⟩
    rw [hreplay]
    exact Replay.exists_run time h.wellPlaced hcollector hstarts hinner hstream
  · -- nothing is open then, and no matter when it ends
    have hcount : nodes.length = samples.length := length_of_mapM hnodes
    have hb := stopIndex_le model samples start stop
    have htimes := h.times samples hsamples
    have hnil : model.streamOf nodes start stop = [] := streamOf_eq_nil (by rw [hcount]; omega)
    refine ⟨nodes, _, hnodes, List.getElem?_eq_getElem (by omega), fun scratch hstarts hinner => ?_⟩
    rw [hreplay, hnil]
    exact Replay.exists_run time h.wellPlaced hcollector hstarts hinner (by simp)

/-- **The replay of a profile reports what the effective stacks of its samples say, also with
buffers that were used before.** -/
theorem replay_eq_replayed {profile : Value α} {keepNatives : Bool}
    (h : load profile keepNatives = .ok model)
    (halike : ∀ position, model.system.collector = some position →
      isAlike model.arena position = true)
    {samples : List (Value α)} (hsamples : model.samples = some samples) (start stop : Option α) :
    ∃ nodes last, samples.mapM (requirePosition model.names) = .ok nodes ∧
      model.timestamps[model.stopIndex samples.length start stop]? = some last ∧
      model.replay (.ofOption (start.map .num)) (.ofOption (stop.map .num)) =
        .ok (replayed model.arena model.system.collector last []
          (model.streamOf nodes start stop) []) ∧
      ∀ scratch : Scratch α, model.scratchSize ≤ scratch.starts.size →
        model.scratchSize ≤ scratch.inner.size →
        ∃ left, model.replayWith scratch (.ofOption (start.map .num)) (.ofOption (stop.map .num)) =
          .ok (left, replayed model.arena model.system.collector last []
            (model.streamOf nodes start stop) []) := by
  have hsize : model.arena.maxDepth + 2 ≤ model.scratchSize := Nat.le_succ _
  obtain ⟨nodes, last, hnodes, hlast, hreplay⟩ :=
    exists_replayWith (sound_of_load h) halike hsamples start stop
  refine ⟨nodes, last, hnodes, hlast, ?_, fun scratch hstarts hinner =>
    hreplay scratch (hsize.trans hstarts) (hsize.trans hinner)⟩
  obtain ⟨left, hblank⟩ := hreplay (Scratch.blank model.scratchSize)
    (hsize.trans_eq (Scratch.size_starts_blank _).symm)
    (hsize.trans_eq (Scratch.size_inner_blank _).symm)
  rw [replay, hblank]
  rfl

/-- A profile of so many samples of a garbage collection with some id. -/
def collections (id : Value Number) (count : Nat) : Value Number :=
  .obj [
    ("nodes", .list [
      .obj [("id", .int 1), ("children", .list [id]), ("functionName", .str "(root)")],
      .obj [("id", id), ("functionName", .str collectorName)]]),
    ("samples", .list (List.replicate count id)),
    ("endTime", .int 1000)]

theorem replay_eq_replayed_collections :
    ∃ model samples nodes last, load (collections (.int 2) 3) false = .ok model ∧
      model.samples = some samples ∧
      samples.mapM (requirePosition model.names) = .ok nodes ∧
      model.timestamps[model.stopIndex samples.length none none]? = some last ∧
      model.replay .null .null = .ok (replayed model.arena model.system.collector last []
        (model.streamOf nodes none none) []) := by
  have hchecked : (do
      let model ← load (collections (.int 2) 3) false
      return (model.samples.isSome, model.system.collector.all (isAlike model.arena))) =
        .ok (true, true) := by
    decide +kernel
  obtain ⟨model, hload, hchecks⟩ := bind_eq_ok.mp hchecked
  obtain ⟨hsome, hall⟩ := Prod.mk.inj (pure_eq_ok.mp hchecks)
  obtain ⟨samples, hsamples⟩ := Option.isSome_iff_exists.mp hsome
  have halike : ∀ position, model.system.collector = some position →
      isAlike model.arena position = true := fun position hposition => by
    simpa [hposition] using hall
  obtain ⟨nodes, last, hnodes, hlast, hreplay, -⟩ :=
    replay_eq_replayed hload halike hsamples none none
  exact ⟨model, samples, nodes, last, hload, hsamples, hnodes, hlast, hreplay⟩

/-- **Where the id of a collection has no value, two samples of it open two frames.** -/
theorem replay_undefined_collections :
    ∃ model nodes last, load (collections (.num (.undefined 0)) 2) false = .ok model ∧
      (model.samples.getD []).mapM (requirePosition model.names) = .ok nodes ∧
      model.timestamps[model.stopIndex nodes.length none none]? = some last ∧
      model.replay .null .null ≠ .ok (replayed model.arena model.system.collector last []
        (model.streamOf nodes none none) []) := by
  have hcounted : (do
      let model ← load (collections (.num (.undefined 0)) 2) false
      let nodes ← (model.samples.getD []).mapM (requirePosition model.names)
      let last ← (model.timestamps[model.stopIndex nodes.length none none]?).elim
        (.error Fault.outOfRange) .ok
      let events ← model.replay .null .null
      return (events.length, (replayed model.arena model.system.collector last []
        (model.streamOf nodes none none) []).length)) = .ok (4, 2) := by
    decide +kernel
  obtain ⟨model, hload, hcounted⟩ := bind_eq_ok.mp hcounted
  obtain ⟨nodes, hnodes, hcounted⟩ := bind_eq_ok.mp hcounted
  obtain ⟨last, hlast, hcounted⟩ := bind_eq_ok.mp hcounted
  obtain ⟨events, hevents, hcounted⟩ := bind_eq_ok.mp hcounted
  obtain ⟨hmany, hfew⟩ := Prod.mk.inj (pure_eq_ok.mp hcounted)
  refine ⟨model, nodes, last, hload, hnodes, ?_, fun hsame => ?_⟩
  · cases htime : model.timestamps[model.stopIndex nodes.length none none]? with
    | none => simp [htime] at hlast
    | some time =>
      rw [htime] at hlast
      rw [Except.ok.inj hlast]
  · rw [hevents] at hsame
    rw [← Except.ok.inj hsame, hmany] at hfew
    omega

end Model
end SampledProfile
