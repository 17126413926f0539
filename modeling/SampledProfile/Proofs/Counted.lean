/-
# Hits that are counted are the hits that could have been reported

Where the first node reports no hits they are counted from the samples, whatever other nodes report.
The profile that reports these counts at all of its nodes (`Recording.reportHits`, `Value.timesIn`) takes
the other way: its hits are summed up as they stand, and a sample of an unknown node is only noticed
when the samples are redirected.

* `NodeTable.agree_counted`: once hits are counted, the table is that of the other profile;
* `Contraction.ofNodes_counted`: so both contract to the same, or both are refused;
* **`Model.load_counted`: both profiles are loaded as one model, or neither is loaded, and there are as
  many hits as samples.**
-/
import Mathlib.Algebra.BigOperators.Ring.Finset
import SampledProfile.Numeric.Number
import SampledProfile.Proofs.Contraction.Accepted
import SampledProfile.Proofs.Contraction.Alike
import SampledProfile.Proofs.NodeTable.Totals
import SampledProfile.Proofs.Places
import SampledProfile.Proofs.Recording.Reported

namespace SampledProfile

open Outcome

/-- How often the node of an id is sampled. -/
def Value.timesIn {α : Type} [Scalar α] (samples : List (Value α)) (id : Value α) : Value α :=
  .nat (samples.countP fun sample => sample.SameName id)

/-! ## 1. Counted and reported tables -/

namespace NodeTable

variable {α : Type} [Scalar α]

/-- Samples of known nodes are shared out among these. -/
theorem sum_countP_eq_length {table : NodeTable α} (hi : table.Indexed) {samples : List (Value α)}
    (hknown : ∀ sample ∈ samples, Known table.nodes sample) :
    ((List.range table.nodes.length).map fun position =>
      samples.countP fun sample => sample.SameName (idIn table.nodes position)).sum =
        samples.length := by
  obtain ⟨positions, hnames⟩ : ∃ positions, Contraction.Names table.nodes samples positions := by
    choose! named hnamed using hknown
    refine ⟨samples.map named, ?_⟩
    rw [Contraction.Names, List.forall₂_map_right_iff, List.forall₂_same]
    exact hnamed
  have hcounts : ∀ position ∈ List.range table.nodes.length,
      samples.countP (fun sample => sample.SameName (idIn table.nodes position)) =
        positions.count position := fun position hp =>
    (hnames.count_eq hi (List.mem_range.mp hp)).symm
  rw [List.map_congr_left hcounts, hnames.length_eq]
  have hall : ∀ position ∈ (positions : Multiset Nat), position ∈ Finset.range table.nodes.length :=
    fun position hp => Finset.mem_range.mpr (hnames.exists_of_mem hp).1
  have hsum := Multiset.sum_count_eq_card hall
  simp only [Multiset.coe_count, Multiset.coe_card] at hsum
  exact hsum

/-- The table in which all nodes report other hits. -/
structure ReportsAll (hits : Value α → Value α) (table other : NodeTable α) : Prop where
  agree : Agree ["hitCount"] table other
  hits : ∀ position < table.nodes.length,
    (nodeIn other.nodes position).get? "hitCount" = some (hits (idIn table.nodes position))

theorem alike_reported {hits : Value α → Value α} {nodes others : List (Fields α)}
    (h : List.Forall₂ (Recording.Reports hits) nodes others) :
    Alike (ReportsAll hits) (ofNodes (nodes.map .obj)) (ofNodes (others.map .obj)) := by
  have halike : Alike (Agree ["hitCount"]) (ofNodes (nodes.map .obj)) (ofNodes (others.map .obj)) :=
    alike_ofNodes (by decide) (h.imp fun _ _ hnode => hnode.others)
  generalize htable : ofNodes (nodes.map .obj) = x at halike ⊢
  generalize hother : ofNodes (others.map .obj) = y at halike ⊢
  cases halike with
  | error fault => exact .error fault
  | @ok table other hagree =>
    obtain ⟨rfl, -⟩ := indexed_ofNodes htable
    obtain ⟨rfl, -⟩ := indexed_ofNodes hother
    refine .ok ⟨hagree, fun position hp => ?_⟩
    have hp' : position < other.nodes.length := hagree.length ▸ hp
    have hnode := (List.forall₂_iff_get.mp h).2 position hp hp'
    rw [idIn, nodeIn_eq_getElem hp, nodeIn_eq_getElem hp']
    exact hnode.hits

/-- **A table whose hits are counted is the one whose nodes report the counts.** -/
theorem agree_counted {samples : List (Value Number)} {table other : NodeTable Number}
    (hi : table.Indexed) (h : ReportsAll (Value.timesIn samples) table other)
    (hfirst : ((nodeIn table.nodes 0).get "hitCount").number? = none)
    (hok : (table.fillHits (.list samples)).2 = .ok ()) :
    Agree [] (table.fillHits (.list samples)).1 other := by
  have hfills := fills_fillHits table (.list samples)
  refine ((Agree.of_fills hfills).symm.trans h.agree).with_field fun position hp => ?_
  have hp' : position < table.nodes.length := hfills.length ▸ hp
  have hcounted := get_fillHits hi hok hp'
  rw [hitsIn, hfirst, Option.isSome_none, if_neg Bool.false_ne_true] at hcounted
  rw [h.hits position hp', Value.timesIn, Value.nat, ← countFrom_eq]
  exact (Fields.get?_of_get hcounted (by simp)).symm

/-- The counts of all nodes together are as many as the samples. -/
theorem totalHits_of_counted {samples : List (Value Number)} {table : NodeTable Number}
    (hi : table.Indexed) (hfirst : ((nodeIn table.nodes 0).get "hitCount").number? = none)
    (hok : (table.fillHits (.list samples)).2 = .ok ()) :
    (table.fillHits (.list samples)).1.totalHits = .ok (.int samples.length) := by
  have hfills := fills_fillHits table (.list samples)
  have hknown : ∀ sample ∈ samples, Known table.nodes sample := by
    rcases ((fillHits_eq_ok_iff hi (some samples)).mp hok).2 with hnumber | ⟨ids, hids, hknown⟩
    · simp [hfirst] at hnumber
    · exact Option.some.inj hids ▸ hknown
  have hcounts : List.Forall₂ (fun node (count : Int) =>
      ((Fields.get node "hitCount").orElse (.int 0)).number = .ok (.int count))
      (table.fillHits (.list samples)).1.nodes
      (((List.range table.nodes.length).map fun position =>
        samples.countP fun sample => sample.SameName (idIn table.nodes position)).map Nat.cast) := by
    refine List.forall₂_iff_get.mpr ⟨by simp [hfills.length], fun position hp _ => ?_⟩
    rw [hfills.length] at hp
    have hcounted := get_fillHits hi hok hp
    rw [hitsIn, hfirst, Option.isSome_none, if_neg Bool.false_ne_true,
      nodeIn_eq_getElem (hfills.length ▸ hp)] at hcounted
    have hgiven := hcounted.trans (congrArg Value.num (countFrom_eq table.nodes position samples))
    simp only [List.get_eq_getElem, List.getElem_map, List.getElem_range]
    rw [hgiven]
    exact number_int_orElse _
  rw [totalHits_of_counts hcounts, ← sum_countP_eq_length hi hknown, Nat.cast_list_sum]

end NodeTable

/-! ## 2. Contractions -/

namespace Contraction

open NodeTable

variable {nodes others : List (Fields Number)} {samples : List (Value Number)}

/-- Once hits are counted, everything goes on as in the table that reports the counts. -/
theorem goesOn_counted {table other : NodeTable Number} (hi : table.Indexed)
    (hreports : ReportsAll (Value.timesIn samples) table other)
    (hfirst : ((nodeIn table.nodes 0).get "hitCount").number? = none)
    (hok : (table.fillHits (.list samples)).2 = .ok ()) (start finish : Value Number)
    (keepNatives : Bool) :
    other.fillHits (.list samples) = (other, .ok ()) ∧
      other.fillChildren.2 = (table.fillHits (.list samples)).1.fillChildren.2 ∧
      ofTable (filledTable other (.list samples)) (.list samples) start finish keepNatives =
        ofTable (filledTable table (.list samples)) (.list samples) start finish keepNatives := by
  have hne := ((fillHits_eq_ok_iff hi (some samples)).mp hok).1
  have hpos := List.length_pos_of_ne_nil hne
  have hhits : other.fillHits (.list samples) = (other, .ok ()) := by
    refine fillHits_of_number (List.length_pos_iff.mp (hreports.agree.length ▸ hpos)) ?_ _
    rw [Fields.get, hreports.hits 0 hpos]
    rfl
  obtain ⟨hfilled, hchildren⟩ := agree_fillChildren List.not_mem_nil List.not_mem_nil
    List.not_mem_nil (agree_counted hi hreports hfirst hok)
  refine ⟨hhits, hchildren, ?_⟩
  have hreads : ReadsAs (filledTable table (.list samples)) (filledTable other (.list samples)) := by
    rw [filledTable, filledTable, hhits]
    exact .of_agree hfilled
  exact hreads.ofTable_eq _ _ _ _

/-- **What nodes and samples contract to where hits are counted, the nodes that report the counts
contract to, and nothing else.** -/
theorem ofNodes_counted (h : List.Forall₂ (Recording.Reports (Value.timesIn samples)) nodes others)
    (hfirst : ((nodeIn nodes 0).get "hitCount").number? = none) (start finish : Value Number)
    (keepNatives : Bool) (result : Contraction Number) :
    (ofNodes (nodes.map .obj) (.list samples) start finish keepNatives).2 = .ok result ↔
      (ofNodes (others.map .obj) (.list samples) start finish keepNatives).2 = .ok result := by
  have halike := NodeTable.alike_reported h
  constructor
  · intro hresult
    obtain ⟨hne, table, htable, hhits, hchildren, hcontracts⟩ := ofNodes_eq_ok_iff.mp hresult
    obtain ⟨other, hother, hreports⟩ := halike.exists_ok htable
    obtain ⟨rfl, hi⟩ := indexed_ofNodes htable
    obtain ⟨hhits', hchildren', hcontracts'⟩ :=
      goesOn_counted hi hreports hfirst hhits start finish keepNatives
    refine ofNodes_eq_ok_iff.mpr ⟨?_, other, hother, by rw [hhits'], ?_, hcontracts'.trans hcontracts⟩
    · exact List.length_pos_iff.mp (h.length_eq ▸ List.length_pos_of_ne_nil hne)
    · rw [hhits']
      exact hchildren'.trans hchildren
  · intro hresult
    have hknown := known_of_ofNodes hresult
    obtain ⟨hne, other, hother, -, hchildren, hcontracts⟩ := ofNodes_eq_ok_iff.mp hresult
    obtain ⟨table, htable, hreports⟩ := halike.exists_ok_left hother
    obtain ⟨rfl, hi⟩ := indexed_ofNodes htable
    obtain ⟨rfl, -⟩ := indexed_ofNodes hother
    have hnonempty : table.nodes ≠ [] :=
      List.length_pos_iff.mp (h.length_eq ▸ List.length_pos_of_ne_nil hne)
    -- only here it is noticed that the samples are known
    have hhits : (table.fillHits (.list samples)).2 = .ok () :=
      (fillHits_eq_ok_iff hi (some samples)).mpr ⟨hnonempty, .inr ⟨samples, rfl, fun id hid =>
        (hreports.agree.known_iff (by decide)).mp (hknown id hid)⟩⟩
    obtain ⟨hhits', hchildren', hcontracts'⟩ :=
      goesOn_counted hi hreports hfirst hhits start finish keepNatives
    rw [hhits'] at hchildren
    exact ofNodes_eq_ok_iff.mpr ⟨hnonempty, table, htable, hhits, hchildren'.symm.trans hchildren,
      hcontracts'.symm.trans hcontracts⟩

/-- Where hits are counted, there are as many as samples. -/
theorem totalHits_of_ofNodes (hfirst : ((nodeIn nodes 0).get "hitCount").number? = none)
    {start finish : Value Number} {keepNatives : Bool} {result : Contraction Number}
    (h : (ofNodes (nodes.map .obj) (.list samples) start finish keepNatives).2 = .ok result) :
    result.totalHits = .int samples.length := by
  obtain ⟨-, table, htable, hhits, hchildren, hresult⟩ := ofNodes_eq_ok_iff.mp h
  obtain ⟨rfl, hi⟩ := indexed_ofNodes htable
  have htotal := totalHits_of_counted hi hfirst hhits
  obtain ⟨hlinked, -⟩ :=
    listed_fillChildren ((fills_fillHits table _).indexed (by decide) hi) hchildren
  have hsame : (filledTable table (.list samples)).totalHits =
      (table.fillHits (.list samples)).1.totalHits :=
    (Agree.of_fills hlinked).totalHits_eq (by decide)
  rw [(ofTable_eq_ok_iff.mp hresult).1] at hsame
  exact Except.ok.inj (hsame.trans htotal)

end Contraction

/-! ## 3. Models -/

namespace Model

open Recording NodeTable

/-- Recordings that are the same but for the hits, which the one reports as they are counted in the
other, make one model or none. -/
theorem ofRecording_counted {samples : List (Value Number)} {recording other : Recording Number}
    (h : SameButHits (Value.timesIn samples) recording other)
    (hsamples : recording.samples = some samples)
    (hfirst : ((nodeIn recording.nodes 0).get "hitCount").number? = none) (keepNatives : Bool)
    (model : Model Number) :
    ofRecording recording keepNatives = .ok model ↔ ofRecording other keepNatives = .ok model := by
  have hiff := Contraction.ofNodes_counted h.nodes hfirst recording.start recording.finish
    keepNatives
  rw [h.others]
  refine ⟨ofRecording_of_nodes fun contraction hcontraction => ?_, fun hmodel => ?_⟩
  · rw [hsamples] at hcontraction ⊢
    exact (hiff contraction).mp hcontraction
  · refine @ofRecording_of_nodes _ _ { recording with nodes := other.nodes } _ _ recording.nodes
      (fun contraction hcontraction => ?_) hmodel
    dsimp only at hcontraction ⊢
    rw [hsamples] at hcontraction ⊢
    exact (hiff contraction).mpr hcontraction

/-- The first node of a recording reports the hits that the first node of the profile does. -/
theorem hits_firstNode {profile : Fields Number} {recording : Recording Number}
    (h : ofProfile (.obj profile) = .ok recording)
    (hfirst : ∀ node, firstNode profile = .obj node →
      (Fields.get node "hitCount").number? = none) :
    ((nodeIn recording.nodes 0).get "hitCount").number? = none := by
  obtain ⟨node, first, rest, hnode, hnodes, hsame⟩ := exists_firstNode h
  have hget : nodeIn recording.nodes 0 = first := by rw [hnodes]; rfl
  rw [hget, hsame.get (by decide)]
  exact hfirst node hnode

/-- **Hits that are counted are the hits that could have been reported.** -/
theorem load_counted {profile : Fields Number} {samples : List (Value Number)}
    (hsamples : profile.get "samples" = .list samples)
    (hfirst : ∀ node, firstNode profile = .obj node →
      (Fields.get node "hitCount").number? = none) (keepNatives : Bool) :
    (∀ model, load (.obj profile) keepNatives = .ok model ↔
      load (.obj (reportHits (Value.timesIn samples) profile)) keepNatives = .ok model) ∧
    ∀ model, load (.obj profile) keepNatives = .ok model →
      model.totalHits = .int samples.length := by
  have halike : Alike (SameButHits (Value.timesIn samples)) (ofProfile (.obj profile))
      (ofProfile (.obj (reportHits (Value.timesIn samples) profile))) := alike_ofProfile profile
  have hgiven : ∀ {recording}, ofProfile (.obj profile) = .ok recording →
      recording.samples = some samples := fun hrecording => by
    have hread := samples_of_ofProfile hrecording
    rw [hsamples] at hread
    exact (Except.ok.inj hread).symm
  refine ⟨fun model => ⟨fun h => ?_, fun h => ?_⟩, fun model h => ?_⟩
  · obtain ⟨recording, hrecording, h⟩ := bind_eq_ok.mp h
    obtain ⟨other, hother, hsame⟩ := halike.exists_ok hrecording
    exact bind_eq_ok.mpr ⟨other, hother, (ofRecording_counted hsame (hgiven hrecording)
      (hits_firstNode hrecording hfirst) keepNatives model).mp h⟩
  · obtain ⟨other, hother, h⟩ := bind_eq_ok.mp h
    obtain ⟨recording, hrecording, hsame⟩ := halike.exists_ok_left hother
    exact bind_eq_ok.mpr ⟨recording, hrecording, (ofRecording_counted hsame (hgiven hrecording)
      (hits_firstNode hrecording hfirst) keepNatives model).mpr h⟩
  · obtain ⟨recording, hrecording, h⟩ := bind_eq_ok.mp h
    obtain ⟨contraction, names, hcontraction, -, hstages⟩ := ofRecording_eq_ok_iff.mp h
    rw [hgiven hrecording] at hcontraction
    rw [hstages.of_model.2.2]
    exact Contraction.totalHits_of_ofNodes (hits_firstNode hrecording hfirst) hcontraction

/-- The samples of a native call between two others. -/
def mixedSamples : List (Value Number) := [.int 3, .int 2, .int 4, .int 2]

/-- A profile in which one node that is not the first reports hits, and not those that it has. -/
def partlyReported : Fields Number := [
  ("nodes", .list [
    .obj [("id", .int 1), ("children", .list [.int 2]), ("functionName", .str "(root)")],
    .obj [("id", .int 2), ("children", .list [.int 3, .int 4]), ("functionName", .str "f"),
      ("hitCount", .int 7)],
    .obj [("id", .int 3), ("functionName", .str "g"), ("url", .str "native array.js")],
    .obj [("id", .int 4), ("functionName", .str "h")]]),
  ("samples", .list mixedSamples),
  ("endTime", .int 1000)]

theorem load_counted_partlyReported :
    partlyReported.get "samples" = .list mixedSamples ∧
      (∀ node, firstNode partlyReported = .obj node →
        (Fields.get node "hitCount").number? = none) ∧
      ∃ model, load (.obj partlyReported) false = .ok model ∧
        load (.obj (reportHits (Value.timesIn mixedSamples) partlyReported)) false = .ok model ∧
        model.totalHits = .int mixedSamples.length := by
  have hsamples : partlyReported.get "samples" = .list mixedSamples := rfl
  have hfirst : ∀ node, firstNode partlyReported = .obj node →
      (Fields.get node "hitCount").number? = none := by
    rintro node hnode
    cases hnode
    rfl
  have hloads : (load (.obj partlyReported) false).isOk = true := by decide +kernel
  obtain ⟨model, hload⟩ := exists_of_isOk hloads
  obtain ⟨hiff, htotal⟩ := load_counted hsamples hfirst false
  exact ⟨hsamples, hfirst, model, hload, (hiff model).mp hload, htotal model hload⟩

end Model
end SampledProfile
