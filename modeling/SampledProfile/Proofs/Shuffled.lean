/-
# The order in which samples were recorded

Samples are put in the order of their times, so where no two times are equal it does not matter in which
order they were recorded, each with its time.  On the way from the recording to the sorted samples they
are gone through twice.

* They are counted as hits, and the counts are the same in any order (`NodeTable.agree_shuffled`).
* They are redirected to the kept nodes, each on its own (`Contraction.ofNodes_shuffled`).

Sorting then brings both recordings to one sequence (`Samples.sort_of_perm`), and all that comes after it
sees only that: **`Model.load_shuffled`: the profile with the samples in another order is loaded exactly
if it is with the order that it has, and as the same model.**

A time without a value compares with no other, so it keeps times from being sorted
(`Model.load_shuffled_undefinedTime`).
-/
import SampledProfile.Proofs.Contraction.Alike
import SampledProfile.Proofs.Contraction.Source
import SampledProfile.Proofs.Loaded
import SampledProfile.Proofs.Recording.Heads
import SampledProfile.Proofs.Samples.Stability

namespace SampledProfile

open Outcome

variable {α : Type} [Scalar α]

/-! ## 1. Counting -/

namespace NodeTable

/-- A node has as many hits, in whatever order the samples are counted. -/
theorem countFrom_of_perm {samples others : List (Value α)} (h : others.Perm samples)
    (nodes : List (Fields α)) (position : Nat) (start : α) :
    countFrom nodes position others start = countFrom nodes position samples start :=
  (h.filter _).foldl_eq' (fun _ _ _ _ _ => rfl) start

/-- **Hits are filled in from the samples in any order, and they are the same.** -/
theorem agree_shuffled {table : NodeTable α} (hi : table.Indexed) {samples others : List (Value α)}
    (h : others.Perm samples) (hok : (table.fillHits (.list samples)).2 = .ok ()) :
    (table.fillHits (.list others)).2 = .ok () ∧
      Agree [] (table.fillHits (.list samples)).1 (table.fillHits (.list others)).1 := by
  obtain ⟨hne, hhits⟩ := (fillHits_eq_ok_iff hi (some samples)).mp hok
  by_cases hnumber : ((nodeIn table.nodes 0).get "hitCount").number?.isSome = true
  · rw [fillHits_of_number hne hnumber, fillHits_of_number hne hnumber]
    exact ⟨rfl, .refl _ _⟩
  · have hok' : (table.fillHits (.list others)).2 = .ok () := by
      refine (fillHits_eq_ok_iff hi (some others)).mpr ⟨hne, .inr ⟨others, rfl, fun id hid => ?_⟩⟩
      obtain ⟨ids, hids, hknown⟩ := hhits.resolve_left hnumber
      exact hknown id (Option.some.inj hids ▸ h.mem_iff.mp hid)
    have hfills := fills_fillHits table (.list samples)
    have hagree : Agree ["hitCount"] (table.fillHits (.list samples)).1
        (table.fillHits (.list others)).1 :=
      (Agree.of_fills hfills).symm.trans (Agree.of_fills (fills_fillHits table (.list others)))
    refine ⟨hok', hagree.with_field fun position hp => ?_⟩
    have hp' : position < table.nodes.length := hfills.length ▸ hp
    have hcounted := get_fillHits hi hok hp'
    have hcounted' := get_fillHits hi hok' hp'
    rw [hitsIn, if_neg hnumber] at hcounted hcounted'
    rw [Fields.get?_of_get hcounted (by simp), Fields.get?_of_get hcounted' (by simp)]
    exact congrArg (fun count => some (Value.num count)) (countFrom_of_perm h _ _ _)

end NodeTable

/-! ## 2. Contracting -/

namespace Contraction

open NodeTable

/-- **Samples in another order contract to the same, each to what it did.** -/
theorem ofNodes_shuffled {nodes : List (Fields α)} {samples : List (Value α)}
    {start finish : Value α} {keepNatives : Bool} {result : Contraction α}
    (h : (ofNodes (nodes.map .obj) (.list samples) start finish keepNatives).2 = .ok result) :
    ∃ redirect : Value α → Value α, result.samples = some (samples.map redirect) ∧
      ∀ others : List (Value α), others.Perm samples →
        (ofNodes (nodes.map .obj) (.list others) start finish keepNatives).2 =
          .ok { result with samples := some (others.map redirect) } := by
  obtain ⟨hne, table, htable, hhits, hchildren, hresult⟩ := ofNodes_eq_ok_iff.mp h
  obtain ⟨rfl, hi⟩ := indexed_ofNodes htable
  obtain ⟨htotal, time, htime, trail, hroot, hlength, hsamples⟩ := ofTable_eq_ok_iff.mp hresult
  obtain ⟨ids, hids, hsome⟩ := bind_eq_ok.mp hsamples
  obtain rfl : samples = ids := Except.ok.inj hids
  obtain ⟨redirected, hredirected, hsome⟩ := bind_eq_ok.mp hsome
  have hnonempty : Nonempty (Value α) := ⟨.null⟩
  obtain ⟨redirect, hredirect, rfl⟩ := exists_map_of_mapM hredirected
  refine ⟨redirect, (pure_eq_ok.mp hsome).symm, fun others hperm => ?_⟩
  obtain ⟨hhits', hagree⟩ := agree_shuffled hi hperm hhits
  obtain ⟨hfilled, hchildren'⟩ := agree_fillChildren List.not_mem_nil List.not_mem_nil
    List.not_mem_nil hagree
  have hreads : ReadsAs (filledTable table (.list samples)) (filledTable table (.list others)) :=
    .of_agree hfilled
  refine ofNodes_eq_ok_iff.mpr ⟨hne, table, htable, hhits', hchildren'.trans hchildren, ?_⟩
  rw [hreads.ofTable_eq]
  refine ofTable_eq_ok_iff.mpr ⟨htotal, time, htime, trail, hroot, hlength, ?_⟩
  have hredirected' : others.mapM (redirectSample trail) = .ok (others.map redirect) :=
    mapM_eq_ok_of_forall fun sample hsample => hredirect sample (hperm.mem_iff.mp hsample)
  exact bind_eq_ok.mpr ⟨others, rfl, bind_eq_ok.mpr ⟨_, hredirected', rfl⟩⟩

end Contraction

/-! ## 3. Sorting -/

/-- Values at one place of the line are the same. -/
theorem Magnitude.same_of_rank_eq {a b : Magnitude} (ha : a.isDefined = true)
    (hb : b.isDefined = true) (h : a.rank = b.rank) : a.same b = true := by
  rcases a with a | (_ | _) | _ <;> rcases b with b | (_ | _) | _ <;>
    simp_all [same, rank, isDefined, -WithBot.coe_top]

namespace Samples

variable {σ : Type}

/-- Times with values at one place of the line are equal. -/
theorem equals_of_rankOf_eq {a b : Value α} (ha : isDefined a = true) (hb : isDefined b = true)
    (h : rankOf a = rankOf b) : a.equals b = true := by
  unfold isDefined at ha hb
  unfold rankOf at h
  cases hx : a.number? with
  | none => simp [hx] at ha
  | some x =>
    cases hy : b.number? with
    | none => simp [hy] at hb
    | some y =>
      rw [hx] at ha h
      rw [hy] at hb h
      have hequals : a.equals b = Scalar.same x y := by
        cases a <;> cases b <;> simp_all [Value.equals, Value.number?]
      exact hequals.trans (Magnitude.same_of_rank_eq ha hb h)

/-- Entries in the order of their times. -/
def ordered (entries : List (σ × Value α)) : List (σ × Value α) :=
  entries.mergeSort fun p q => decide (rankOf p.2 ≤ rankOf q.2)

theorem perm_ordered (entries : List (σ × Value α)) : (ordered entries).Perm entries :=
  List.mergeSort_perm _ _

theorem pairwise_ordered (entries : List (σ × Value α)) :
    (ordered entries).Pairwise fun p q => decide (rankOf p.2 ≤ rankOf q.2) = true :=
  List.pairwise_mergeSort
    (fun _ _ _ hab hbc => decide_eq_true ((of_decide_eq_true hab).trans (of_decide_eq_true hbc)))
    (fun p q => by simpa using le_total (rankOf p.2) (rankOf q.2)) entries

/-- Where no two times are equal there is one order. -/
theorem ordered_of_perm {entries others : List (σ × Value α)}
    (hdefined : ∀ entry ∈ entries, isDefined entry.2 = true)
    (hdistinct : entries.Pairwise fun entry other => entry.2.equals other.2 = false)
    (h : others.Perm entries) : ordered others = ordered entries := by
  have hranks : (entries.map fun entry => rankOf entry.2).Nodup := by
    refine List.pairwise_map.mpr (hdistinct.imp_of_mem fun {entry other} hentry hother hne heq => ?_)
    rw [equals_of_rankOf_eq (hdefined entry hentry) (hdefined other hother) heq] at hne
    cases hne
  have hperm := (perm_ordered others).trans (h.trans (perm_ordered entries).symm)
  refine hperm.eq_of_pairwise (fun p q hp hq hle hge => ?_) (pairwise_ordered others)
    (pairwise_ordered entries)
  have hp' : p ∈ entries := h.mem_iff.mp ((perm_ordered others).mem_iff.mp hp)
  have hq' : q ∈ entries := (perm_ordered entries).mem_iff.mp hq
  exact List.inj_on_of_nodup_map hranks hp' hq'
    (le_antisymm (of_decide_eq_true hle) (of_decide_eq_true hge))

/-- Entries with values are put in order, and what follows their times stays where it is. -/
theorem sort_entries {entries : List (σ × Value α)} (bound : List (Value α))
    (h : ∀ entry ∈ entries, isDefined entry.2 = true) :
    sort (entries.map Prod.fst) (entries.map Prod.snd ++ bound) =
      .ok ((ordered entries).map Prod.fst, (ordered entries).map Prod.snd ++ bound) := by
  have hcount : min (entries.map Prod.fst).length (entries.map Prod.snd ++ bound).length =
      entries.length := by simp
  have hzip : (entries.map Prod.fst).zip (entries.map Prod.snd ++ bound) = entries := by
    refine List.ext_getElem (by simp) fun position hp hp' => ?_
    simp [List.getElem_append_left, hp']
  have hvalues : ∀ time ∈ (entries.map Prod.snd ++ bound).take (entries.map Prod.fst).length,
      isDefined time = true := fun time htime => by
    rw [List.length_map, ← List.length_map (f := Prod.snd), List.take_left] at htime
    obtain ⟨entry, hentry, rfl⟩ := List.mem_map.mp htime
    exact h entry hentry
  have hsort := sort_eq_mergeSort (entries.map Prod.fst) hvalues
  dsimp only at hsort
  rw [hcount, hzip] at hsort
  rw [hsort, List.drop_eq_nil_of_le (by simp), List.append_nil, ← List.length_map (f := Prod.snd),
    List.drop_left, ordered]

/-- **Samples with different times come out the same, in whatever order they go in.** -/
theorem sort_of_perm {entries others : List (σ × Value α)} (bound : List (Value α))
    (hdefined : ∀ entry ∈ entries, isDefined entry.2 = true)
    (hdistinct : entries.Pairwise fun entry other => entry.2.equals other.2 = false)
    (h : others.Perm entries) :
    sort (others.map Prod.fst) (others.map Prod.snd ++ bound) =
      sort (entries.map Prod.fst) (entries.map Prod.snd ++ bound) := by
  rw [sort_entries bound hdefined, ← ordered_of_perm hdefined hdistinct h]
  exact sort_entries bound fun entry hentry => hdefined entry (h.mem_iff.mp hentry)

end Samples

/-! ## 4. Loading -/

namespace Recording

/-- The recording with other samples, each with its time, and with what follows the times. -/
def sampledAt (recording : Recording α) (entries : List (Value α × Value α))
    (bound : List (Value α)) : Recording α :=
  { recording with
    timestamps := timesIfAny (entries.map Prod.snd ++ bound)
    samples := some (entries.map Prod.fst) }

/-- Lists of samples and times are taken as they are. -/
theorem ofLegacy_eq_of_lists {profile : Fields α} {entries : List (Value α × Value α)}
    {bound : List (Value α)} (hsamples : profile.get "samples" = .list (entries.map Prod.fst))
    (htimes : profile.get "timestamps" = .list (entries.map Prod.snd ++ bound)) :
    ofLegacy profile = do
      let nodes ← flatten (profile.get "head")
      let start ← (profile.getD "startTime" (.int 0)).mul (.int 1000)
      let finish ← (profile.getD "endTime" (.int 0)).mul (.int 1000)
      return sampledAt ⟨nodes, start, finish, none, none, profile.get "lines"⟩ entries bound := by
  have hids : itemsIfGiven (.list (entries.map Prod.fst)) = .ok (some (entries.map Prod.fst)) := rfl
  cases hgiven : entries.map Prod.snd ++ bound with
  | nil =>
    simp only [ofLegacy, hsamples, htimes, hids, ok_bind, sampledAt, hgiven]
    rfl
  | cons time rest =>
    simp only [ofLegacy, hsamples, htimes, hids, ok_bind, sampledAt, hgiven]
    rfl

/-- A profile with other samples, each with its time, is read the same but for these. -/
theorem ofLegacy_sampledAt {profile other : Fields α} {entries others : List (Value α × Value α)}
    {bound : List (Value α)} (h : profile.Same ["samples", "timestamps"] other)
    (hsamples : profile.get "samples" = .list (entries.map Prod.fst))
    (htimes : profile.get "timestamps" = .list (entries.map Prod.snd ++ bound))
    (hsamples' : other.get "samples" = .list (others.map Prod.fst))
    (htimes' : other.get "timestamps" = .list (others.map Prod.snd ++ bound))
    {recording : Recording α} (hrecording : ofLegacy profile = .ok recording) :
    recording = recording.sampledAt entries bound ∧
      ofLegacy other = .ok (recording.sampledAt others bound) := by
  rw [ofLegacy_eq_of_lists hsamples htimes] at hrecording
  obtain ⟨nodes, hnodes, hrecording⟩ := bind_eq_ok.mp hrecording
  obtain ⟨start, hstart, hrecording⟩ := bind_eq_ok.mp hrecording
  obtain ⟨finish, hfinish, hrecording⟩ := bind_eq_ok.mp hrecording
  obtain rfl := pure_eq_ok.mp hrecording
  rw [ofLegacy_eq_of_lists hsamples' htimes', h.get (by decide), h.getD (by decide),
    h.getD (by decide), h.get (by decide), hnodes, ok_bind, hstart, ok_bind, hfinish]
  exact ⟨rfl, rfl⟩

end Recording

namespace Model

open Recording

/-- Loading does not see in which order samples were recorded that are sorted to the same. -/
theorem ofRecording_shuffled {recording : Recording α} {entries others : List (Value α × Value α)}
    {bound : List (Value α)} (h : others.Perm entries)
    (hsorts : (∀ entry ∈ entries, entry.2.number?.isSome = true) →
      Samples.sort (others.map Prod.fst) (others.map Prod.snd ++ bound) =
        Samples.sort (entries.map Prod.fst) (entries.map Prod.snd ++ bound))
    {keepNatives : Bool} {model : Model α}
    (hmodel : ofRecording (recording.sampledAt entries bound) keepNatives = .ok model) :
    ofRecording (recording.sampledAt others bound) keepNatives = .ok model := by
  by_cases hempty : entries = []
  · subst hempty
    obtain rfl := h.eq_nil
    exact hmodel
  have htimes : ∀ given : List (Value α × Value α), given ≠ [] →
      (recording.sampledAt given bound).timestamps = some (given.map Prod.snd ++ bound) :=
    fun given hgiven => if_neg (by simpa using fun heq _ => hgiven heq)
  have hempty' : others ≠ [] := fun heq => hempty (heq ▸ h).symm.eq_nil
  obtain ⟨contraction, names, hcontraction, hnames, hstages⟩ := ofRecording_eq_ok_iff.mp hmodel
  obtain ⟨redirect, hsome, hothers⟩ := Contraction.ofNodes_shuffled hcontraction
  cases hstages with
  | bare hnone =>
    rw [hnone] at hsome
    cases hsome
  | @sampled samples ordered repaired line count hsamples htimed hrepair =>
    obtain rfl : samples = _ := Option.some.inj (hsamples.symm.trans hsome)
    cases htimed with
    | spread hnone _ =>
      rw [htimes entries hempty] at hnone
      cases hnone
    | @recorded times sorted _ _ hrecorded hsort hline =>
      obtain rfl := Option.some.inj ((htimes entries hempty).symm.trans hrecorded)
      have hnumbers : ∀ entry ∈ entries, entry.2.number?.isSome = true := fun entry hentry =>
        Timeline.numbers_of_ofSamples hline entry.2 ((Samples.perm_of_sort hsort).2.mem_iff.mpr
          (List.mem_append_left _ (List.mem_map_of_mem hentry)))
      have hsort' : Samples.sort ((others.map Prod.fst).map redirect) (others.map Prod.snd ++ bound) =
          .ok (ordered, sorted) := by
        rw [Samples.sort_map, hsorts hnumbers, ← Samples.sort_map]
        exact hsort
      exact ofRecording_eq_ok_iff.mpr ⟨_, names, hothers _ (h.map Prod.fst), hnames,
        .sampled rfl (.recorded (htimes others hempty') hsort' hline) hrepair⟩

/-- Nor does it see in which order they stand in the profile. -/
theorem load_of_shuffled {profile other : Fields α} {entries others : List (Value α × Value α)}
    {bound : List (Value α)} (hsame : profile.Same ["samples", "timestamps"] other)
    (hhead : (profile.get "head").truthy = true)
    (hsamples : profile.get "samples" = .list (entries.map Prod.fst))
    (htimes : profile.get "timestamps" = .list (entries.map Prod.snd ++ bound))
    (hsamples' : other.get "samples" = .list (others.map Prod.fst))
    (htimes' : other.get "timestamps" = .list (others.map Prod.snd ++ bound))
    (h : others.Perm entries)
    (hsorts : (∀ entry ∈ entries, entry.2.number?.isSome = true) →
      Samples.sort (others.map Prod.fst) (others.map Prod.snd ++ bound) =
        Samples.sort (entries.map Prod.fst) (entries.map Prod.snd ++ bound))
    {keepNatives : Bool} {model : Model α} (hload : load (.obj profile) keepNatives = .ok model) :
    load (.obj other) keepNatives = .ok model := by
  have hhead' : (other.get "head").truthy = true := by rwa [hsame.get (by decide)]
  obtain ⟨recording, hrecording, hmodel⟩ := bind_eq_ok.mp hload
  rw [ofProfile_of_head hhead] at hrecording
  obtain ⟨hsampled, hother⟩ :=
    ofLegacy_sampledAt hsame hsamples htimes hsamples' htimes' hrecording
  rw [hsampled] at hmodel
  exact bind_eq_ok.mpr ⟨_, (ofProfile_of_head hhead').trans hother,
    ofRecording_shuffled h hsorts hmodel⟩

/-- The profile with other samples, each with its time, and with what follows the times. -/
def withSamples (profile : Fields α) (entries : List (Value α × Value α)) (bound : List (Value α)) :
    Fields α :=
  (profile.set "samples" (.list (entries.map Prod.fst))).set "timestamps"
    (.list (entries.map Prod.snd ++ bound))

/-- **The order in which samples with different times were recorded does not matter.** -/
theorem load_shuffled {profile : Fields α} {entries others : List (Value α × Value α)}
    {bound : List (Value α)} (hhead : (profile.get "head").truthy = true)
    (hsamples : profile.get "samples" = .list (entries.map Prod.fst))
    (htimes : profile.get "timestamps" = .list (entries.map Prod.snd ++ bound))
    (hdistinct : entries.Pairwise fun entry other => entry.2.equals other.2 = false)
    (hdefined : ∀ entry ∈ entries, ∀ x, entry.2.number? = some x →
      (Scalar.exact x).isDefined = true)
    (h : others.Perm entries) (keepNatives : Bool) (model : Model α) :
    load (.obj (withSamples profile others bound)) keepNatives = .ok model ↔
      load (.obj profile) keepNatives = .ok model := by
  have hsame : profile.Same ["samples", "timestamps"] (withSamples profile others bound) :=
    ((Fields.Same.refl _ _).set_right (by decide) _).set_right (by decide) _
  have hsame' : (withSamples profile others bound).Same ["samples", "timestamps"] profile :=
    fun name hname => (hsame name hname).symm
  have hsamples' : (withSamples profile others bound).get "samples" =
      .list (others.map Prod.fst) := by
    rw [withSamples, Fields.get, Fields.get?_set_of_ne _ _ (by decide), Fields.get?_set_self]
    rfl
  have htimes' : (withSamples profile others bound).get "timestamps" =
      .list (others.map Prod.snd ++ bound) := by
    rw [withSamples, Fields.get, Fields.get?_set_self]
    rfl
  have hsorts : (∀ entry ∈ entries, entry.2.number?.isSome = true) →
      Samples.sort (others.map Prod.fst) (others.map Prod.snd ++ bound) =
        Samples.sort (entries.map Prod.fst) (entries.map Prod.snd ++ bound) := fun hnumbers => by
    refine Samples.sort_of_perm bound (fun entry hentry => ?_) hdistinct h
    obtain ⟨x, hx⟩ := Option.isSome_iff_exists.mp (hnumbers entry hentry)
    rw [Samples.isDefined, hx]
    exact hdefined entry hentry x hx
  constructor
  · intro hload
    have hhead' : ((withSamples profile others bound).get "head").truthy = true := by
      rwa [hsame.get (by decide)]
    exact load_of_shuffled hsame' hhead' hsamples' htimes' hsamples htimes h.symm
      (fun hnumbers => (hsorts fun entry hentry => hnumbers entry (h.mem_iff.mpr hentry)).symm) hload
  · exact load_of_shuffled hsame hhead hsamples htimes hsamples' htimes' h hsorts

/-- Samples that were recorded last to first: a native call, a missed sample and a call. -/
def lateEntries : List (Value Number × Value Number) :=
  [(.int 2, .int 3000), (.int 3, .int 2000), (.int 5, .int 1000)]

/-- A function with a native one below it, and the node of the program. -/
def lateProfile : Fields Number := withSamples [
  ("head", .obj [("id", .int 1), ("functionName", .str "(root)"), ("children", .list [
    .obj [("id", .int 2), ("functionName", .str "f"), ("children", .list [
      .obj [("id", .int 5), ("functionName", .str "g"), ("url", .str "native array.js")]])],
    .obj [("id", .int 3), ("functionName", .str "(program)")]])])] lateEntries [.int 4000]

theorem load_shuffled_lateProfile :
    (lateProfile.get "head").truthy = true ∧
      lateProfile.get "samples" = .list (lateEntries.map Prod.fst) ∧
      lateProfile.get "timestamps" = .list (lateEntries.map Prod.snd ++ [.int 4000]) ∧
      (lateEntries.Pairwise fun entry other => entry.2.equals other.2 = false) ∧
      (∀ entry ∈ lateEntries, ∀ x, entry.2.number? = some x →
        (Scalar.exact x).isDefined = true) ∧
      lateEntries.reverse.Perm lateEntries ∧
      ∃ model, load (.obj lateProfile) false = .ok model ∧
        load (.obj (withSamples lateProfile lateEntries.reverse [.int 4000])) false = .ok model := by
  have hhead : (lateProfile.get "head").truthy = true := rfl
  have hdistinct : lateEntries.Pairwise fun entry other => entry.2.equals other.2 = false := by
    decide +kernel
  have hdefined : ∀ entry ∈ lateEntries, ∀ x, entry.2.number? = some x →
      (Scalar.exact x).isDefined = true := by
    simp only [lateEntries, List.forall_mem_cons]
    refine ⟨?_, ?_, ?_, nofun⟩ <;>
    · rintro x ⟨⟩
      rfl
  have hperm := lateEntries.reverse_perm
  have hloads : (load (.obj lateProfile) false).isOk = true := by decide +kernel
  obtain ⟨model, hload⟩ := exists_of_isOk hloads
  exact ⟨hhead, rfl, rfl, hdistinct, hdefined, hperm, model, hload,
    (load_shuffled hhead rfl rfl hdistinct hdefined hperm false model).mpr hload⟩

/-- Samples of which one was recorded without a time. -/
def untimedEntries : List (Value Number × Value Number) :=
  [(.int 2, .int 3000), (.int 2, .num (.undefined 0)), (.int 2, .int 1000)]

/-- **Around a time without a value samples stay in the order in which they were recorded**, although no
two times are equal. -/
theorem load_shuffled_undefinedTime :
    (untimedEntries.Pairwise fun entry other => entry.2.equals other.2 = false) ∧
      untimedEntries.reverse.Perm untimedEntries ∧
      (load (.obj (withSamples lateProfile untimedEntries [])) false).map
        (fun model => model.timestamps.map Scalar.exact) =
          .ok [.finite 3, .undefined 1, .finite 1, .finite 0] ∧
      (load (.obj (withSamples lateProfile untimedEntries.reverse [])) false).map
        (fun model => model.timestamps.map Scalar.exact) =
          .ok [.finite 1, .undefined 1, .finite 3, .finite 4] :=
  ⟨by decide +kernel, untimedEntries.reverse_perm, by decide +kernel, by decide +kernel⟩

end Model
end SampledProfile
