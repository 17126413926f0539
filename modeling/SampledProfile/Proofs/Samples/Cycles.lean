/-
# Moving entries along cycles

`Moving.settle` puts entries in order without a copy, and overwrites the order while it reads it.
If the order has every position once, this comes to an end, and every position has the entry that
belongs there (`Moving.exists_settle`).

Between two cycles (`Moving.Ready`) all positions before one have their entries.  The others still
take theirs from one another, each from a position of its own.

On a cycle (`Moving.OnCycle`) there is a position that waits, `target`, and the entry that it takes
is at `source`, or was kept aside if that is the first position of the cycle.  No other position
takes its entry from `target`: what stands there may be overwritten.  Every step marks one more
position as settled, and so the cycle has an end (`Moving.unsettled`).
-/
import Mathlib.Data.Finset.Card
import Mathlib.Data.Finset.Range
import SampledProfile.Samples.Order

namespace SampledProfile
namespace Moving

variable {σ τ : Type}

/-! ## 1. Entries and sources -/

/-- The position whose entry belongs to a position. -/
def source (m : Moving σ τ) (position : Nat) : Nat := m.sources.getD position position

theorem getElem?_sources {m : Moving σ τ} {position : Nat} (h : position < m.sources.size) :
    m.sources[position]? = some (m.source position) := by
  simp [source, h]

theorem exists_pairAt {m : Moving σ τ} {position : Nat} (hs : position < m.samples.size)
    (ht : position < m.times.size) : ∃ entry, m.pairAt position = some entry := by
  simp [pairAt, hs, ht]

@[simp] theorem source_put (m : Moving σ τ) (position : Nat) (entry : σ × τ) :
    (m.put position entry).source = m.source := rfl

@[simp] theorem pairAt_mark (m : Moving σ τ) (position : Nat) :
    (m.mark position).pairAt = m.pairAt := rfl

theorem pairAt_put_self {m : Moving σ τ} {position : Nat} (hs : position < m.samples.size)
    (ht : position < m.times.size) (entry : σ × τ) :
    (m.put position entry).pairAt position = some entry := by
  simp [pairAt, put, hs, ht]

theorem pairAt_put_of_ne (m : Moving σ τ) {position other : Nat} (h : other ≠ position)
    (entry : σ × τ) : (m.put position entry).pairAt other = m.pairAt other := by
  simp [pairAt, put, Array.getElem?_setIfInBounds_ne h.symm]

theorem source_mark (m : Moving σ τ) (position : Nat) :
    (m.mark position).source = Function.update m.source position position := by
  funext other
  by_cases h : other = position
  · subst h
    by_cases hlt : other < m.sources.size <;> simp [source, mark, hlt]
  · rw [Function.update_of_ne h]
    simp [source, mark, Array.getElem?_setIfInBounds_ne (Ne.symm h)]

/-! ## 2. What no move changes -/

/-- There are as many entries as before, and those that the order does not name are where they
were. -/
structure Keeps (given m : Moving σ τ) : Prop where
  sources : m.sources.size = given.sources.size
  samples : m.samples.size = given.samples.size
  times : m.times.size = given.times.size
  beyond : ∀ position, given.sources.size ≤ position →
    m.samples[position]? = given.samples[position]? ∧ m.times[position]? = given.times[position]?

/-- There is an entry at every position of the order. -/
def HasRoom (m : Moving σ τ) : Prop :=
  m.sources.size ≤ m.samples.size ∧ m.sources.size ≤ m.times.size

variable {given m : Moving σ τ}

theorem Keeps.refl (given : Moving σ τ) : Keeps given given :=
  ⟨rfl, rfl, rfl, fun _ _ => ⟨rfl, rfl⟩⟩

theorem Keeps.put (h : Keeps given m) {position : Nat} (hp : position < given.sources.size)
    (entry : σ × τ) : Keeps given (m.put position entry) := by
  refine ⟨h.sources, by simpa [Moving.put] using h.samples, by simpa [Moving.put] using h.times,
    fun other hother => ?_⟩
  have hne : position ≠ other := by omega
  rw [← (h.beyond other hother).1, ← (h.beyond other hother).2]
  exact ⟨Array.getElem?_setIfInBounds_ne hne, Array.getElem?_setIfInBounds_ne hne⟩

theorem Keeps.mark (h : Keeps given m) (position : Nat) : Keeps given (m.mark position) :=
  ⟨by simpa [Moving.mark] using h.sources, h.samples, h.times, h.beyond⟩

theorem Keeps.exists_pairAt (h : Keeps given m) (hroom : given.HasRoom) {position : Nat}
    (hp : position < given.sources.size) : ∃ entry, m.pairAt position = some entry :=
  Moving.exists_pairAt (by rw [h.samples]; exact Nat.lt_of_lt_of_le hp hroom.1)
    (by rw [h.times]; exact Nat.lt_of_lt_of_le hp hroom.2)

theorem Keeps.pairAt_put_self (h : Keeps given m) (hroom : given.HasRoom) {position : Nat}
    (hp : position < given.sources.size) (entry : σ × τ) :
    (m.put position entry).pairAt position = some entry :=
  Moving.pairAt_put_self (by rw [h.samples]; exact Nat.lt_of_lt_of_le hp hroom.1)
    (by rw [h.times]; exact Nat.lt_of_lt_of_le hp hroom.2) entry

/-! ## 3. Between two cycles -/

/-- The entry that belongs to a position. -/
def wanted (given : Moving σ τ) (position : Nat) : Option (σ × τ) :=
  given.pairAt (given.source position)

/-- All positions before one have their entries, and the others take theirs from one another. -/
structure Ready (given : Moving σ τ) (first : Nat) (m : Moving σ τ) : Prop where
  keeps : Keeps given m
  done : ∀ position < first, m.pairAt position = given.wanted position
  range : ∀ position, first ≤ position → position < given.sources.size →
    first ≤ m.source position ∧ m.source position < given.sources.size
  injective : ∀ position other, first ≤ position → position < given.sources.size →
    first ≤ other → other < given.sources.size → m.source position = m.source other →
    position = other
  waiting : ∀ position, first ≤ position → position < given.sources.size →
    m.pairAt (m.source position) = given.wanted position

/-- At first every position waits for its entry, if the order has every position once. -/
theorem ready_self (h : given.sources.toList.Perm (List.range given.sources.size)) :
    Ready given 0 given := by
  have hget : ∀ position < given.sources.size,
      given.sources.toList[position]? = some (given.source position) := fun position hp => by
    rw [Array.getElem?_toList, getElem?_sources hp]
  refine ⟨.refl given, nofun, fun position _ hp => ⟨Nat.zero_le _, ?_⟩, ?_, fun _ _ _ => rfl⟩
  · exact List.mem_range.mp (h.mem_iff.mp (List.mem_of_getElem? (hget position hp)))
  · intro position other _ hp _ ho heq
    have hnodup : given.sources.toList.Nodup := h.nodup_iff.mpr List.nodup_range
    refine (List.getElem?_inj (by simpa using hp) hnodup).mp ?_
    rw [hget position hp, hget other ho, heq]

/-- A position that takes its entry from itself has it. -/
theorem Ready.skip {first : Nat} (h : Ready given first m) (hfirst : first < given.sources.size)
    (hself : m.source first = first) : Ready given (first + 1) m := by
  refine ⟨h.keeps, fun position hp => ?_, fun position hle hlt => ?_, ?_, ?_⟩
  · rcases Nat.lt_succ_iff_lt_or_eq.mp hp with hlt | rfl
    · exact h.done position hlt
    · have hwaiting := h.waiting position (Nat.le_refl _) hfirst
      rwa [hself] at hwaiting
  · obtain ⟨hge, hbound⟩ := h.range position (by omega) hlt
    have hne : m.source position ≠ first := fun heq => by
      have := h.injective position first (by omega) hlt (Nat.le_refl _) hfirst
        (heq.trans hself.symm)
      omega
    omega
  · intro position other hp hplt ho holt
    exact h.injective position other (by omega) hplt (by omega) holt
  · exact fun position hle hlt => h.waiting position (by omega) hlt

/-! ## 4. On a cycle -/

/-- The position from which one takes its entry while `target` waits for the entry of `source`. -/
def sourceOn (m : Moving σ τ) (target source : Nat) : Nat → Nat :=
  Function.update m.source target source

/-- What is to be had at a position while the entry of the first one is kept aside. -/
def entryOn (m : Moving σ τ) (first : Nat) (kept : σ × τ) : Nat → Option (σ × τ) :=
  Function.update m.pairAt first (some kept)

/-- Does a position wait for its pairAt  The first one of the cycle does until it is overwritten. -/
def Waits (given : Moving σ τ) (first target position : Nat) : Prop :=
  first ≤ position ∧ position < given.sources.size ∧ (position = first → target = first)

/-- The cycle of a position is being followed. -/
structure OnCycle (given : Moving σ τ) (first : Nat) (kept : σ × τ) (target source : Nat)
    (m : Moving σ τ) : Prop where
  keeps : Keeps given m
  done : ∀ position < first, m.pairAt position = given.wanted position
  target_waits : Waits given first target target
  /-- The first position and the one that waits have been seen to, once the cycle has left it. -/
  begun : target ≠ first → m.pairAt first = given.wanted first ∧ m.source target = target
  range : ∀ position, Waits given first target position →
    first ≤ m.sourceOn target source position ∧
      m.sourceOn target source position < given.sources.size
  injective : ∀ position other, Waits given first target position →
    Waits given first target other →
    m.sourceOn target source position = m.sourceOn target source other → position = other
  waiting : ∀ position, Waits given first target position →
    m.entryOn first kept (m.sourceOn target source position) = given.wanted position
  /-- What stands at the position that waits is no longer needed. -/
  free : target ≠ first → ∀ position, Waits given first target position →
    m.sourceOn target source position ≠ target

/-- A cycle is begun where a position does not take its entry from itself. -/
theorem Ready.onCycle {first : Nat} (h : Ready given first m) (hfirst : first < given.sources.size)
    {kept : σ × τ} (hkept : m.pairAt first = some kept) :
    OnCycle given first kept first (m.source first) m := by
  have hsource : m.sourceOn first (m.source first) = m.source := Function.update_eq_self _ _
  have hentry : m.entryOn first kept = m.pairAt := by
    rw [entryOn, ← hkept, Function.update_eq_self]
  refine ⟨h.keeps, h.done, ⟨Nat.le_refl _, hfirst, fun _ => rfl⟩, fun hne => absurd rfl hne, ?_, ?_,
    ?_, fun hne => absurd rfl hne⟩
  · rw [hsource]
    exact fun position hp => h.range position hp.1 hp.2.1
  · rw [hsource]
    exact fun position other hp ho => h.injective position other hp.1 hp.2.1 ho.1 ho.2.1
  · rw [hsource, hentry]
    exact fun position hp => h.waiting position hp.1 hp.2.1

section Cycle

variable {first target source : Nat} {kept : σ × τ}

/-- The source of the position that waits. -/
theorem sourceOn_self (m : Moving σ τ) (target source : Nat) :
    m.sourceOn target source target = source := Function.update_self _ _ _

/-- Later on a cycle all positions behind the first one wait. -/
theorem waits_of_lt {position : Nat} (hlt : first < position)
    (hp : position < given.sources.size) : Waits given first target position :=
  ⟨Nat.le_of_lt hlt, hp, fun heq => absurd heq (by omega)⟩

theorem waits_of_ne {position : Nat} (htarget : target ≠ first)
    (h : Waits given first target position) : first < position :=
  Nat.lt_of_le_of_ne h.1 fun heq => htarget (h.2.2 heq.symm)

/-- A position that waits is not its own source. -/
theorem OnCycle.source_ne_target (h : OnCycle given first kept target source m)
    (hsource : source ≠ first) : source ≠ target := by
  by_cases htarget : target = first
  · rw [htarget]
    exact hsource
  · have hfree := h.free htarget target h.target_waits
    rwa [sourceOn_self] at hfree

/-- The source waits too, as long as it is not the first position. -/
theorem OnCycle.source_waits (h : OnCycle given first kept target source m)
    (hsource : source ≠ first) (next : Nat) : Waits given first next source := by
  obtain ⟨hle, hlt⟩ := h.range target h.target_waits
  rw [sourceOn_self] at hle hlt
  exact ⟨hle, hlt, fun heq => absurd heq hsource⟩

/-- All other positions take their entries from where they took them before. -/
theorem sourceOn_next (m : Moving σ τ) (target source : Nat) (entry : σ × τ) {position : Nat}
    (hp : position ≠ target) :
    ((m.put target entry).mark source).sourceOn source (m.source source) position =
      m.sourceOn target source position := by
  rw [sourceOn, source_mark, source_put, Function.update_idem, sourceOn, Function.update_of_ne hp]
  exact congrFun (Function.update_eq_self source m.source) position

/-- A position that has just got its entry takes it from itself. -/
theorem OnCycle.sourceOn_target (h : OnCycle given first kept target source m)
    (htarget : target ≠ first) (entry : σ × τ) :
    ((m.put target entry).mark source).sourceOn source (m.source source) target = target := by
  rw [sourceOn, source_mark, source_put, Function.update_idem, Function.update_eq_self]
  exact (h.begun htarget).2

/-- **One step of a cycle.** -/
theorem OnCycle.step (hroom : given.HasRoom) (h : OnCycle given first kept target source m)
    (hsource : source ≠ first) {entry : σ × τ} (hentry : m.pairAt source = some entry) :
    OnCycle given first kept source (m.source source) ((m.put target entry).mark source) := by
  have htarget := h.target_waits
  have hne := h.source_ne_target hsource
  have hwaits : ∀ {position}, Waits given first source position →
      Waits given first target position := fun hp =>
    ⟨hp.1, hp.2.1, fun heq => absurd (hp.2.2 heq) hsource⟩
  have hput := h.keeps.pairAt_put_self hroom htarget.2.1 entry
  have hwanted : given.wanted target = some entry := by
    have hwaiting := h.waiting target htarget
    rw [sourceOn_self, entryOn, Function.update_of_ne hsource, hentry] at hwaiting
    exact hwaiting.symm
  -- nobody else takes an entry from the position that has been filled
  have hother : ∀ position, Waits given first source position → position ≠ target →
      m.sourceOn target source position ≠ source := fun position hp hpt heq =>
    hpt (h.injective position target (hwaits hp) htarget (heq.trans (sourceOn_self _ _ _).symm))
  have hfirst : ∀ position, Waits given first source position → position = target →
      target ≠ first := fun position hp heq htf =>
    hsource (hp.2.2 (heq.trans htf))
  refine ⟨(h.keeps.put htarget.2.1 entry).mark source, fun position hp => ?_,
    h.source_waits hsource source, fun _ => ⟨?_, ?_⟩, fun position hp => ?_,
    fun position other hp ho heq => ?_, fun position hp => ?_, fun _ position hp => ?_⟩
  · rw [pairAt_mark, pairAt_put_of_ne m (by have := htarget.1; omega), h.done position hp]
  · rw [pairAt_mark]
    by_cases heq : target = first
    · rw [← heq, hput, hwanted]
    · rw [pairAt_put_of_ne m (Ne.symm heq), (h.begun heq).1]
  · rw [source_mark, Function.update_self]
  · by_cases hpt : position = target
    · rw [hpt, h.sourceOn_target (hfirst position hp hpt)]
      exact ⟨htarget.1, htarget.2.1⟩
    · rw [sourceOn_next m target source entry hpt]
      exact h.range position (hwaits hp)
  · by_cases hpt : position = target <;> by_cases hot : other = target
    · rw [hpt, hot]
    · rw [hpt, h.sourceOn_target (hfirst position hp hpt),
        sourceOn_next m target source entry hot] at heq
      exact absurd heq.symm (h.free (hfirst position hp hpt) other (hwaits ho))
    · rw [hot, h.sourceOn_target (hfirst other ho hot),
        sourceOn_next m target source entry hpt] at heq
      exact absurd heq (h.free (hfirst other ho hot) position (hwaits hp))
    · rw [sourceOn_next m target source entry hpt, sourceOn_next m target source entry hot] at heq
      exact h.injective position other (hwaits hp) (hwaits ho) heq
  · by_cases hpt : position = target
    · rw [hpt, h.sourceOn_target (hfirst position hp hpt), entryOn,
        Function.update_of_ne (hfirst position hp hpt), pairAt_mark, hput, hwanted]
    · rw [sourceOn_next m target source entry hpt, ← h.waiting position (hwaits hp), entryOn,
        entryOn, pairAt_mark]
      by_cases hback : m.sourceOn target source position = first
      · rw [hback, Function.update_self, Function.update_self]
      · rw [Function.update_of_ne hback, Function.update_of_ne hback, pairAt_put_of_ne]
        -- the first position is overwritten, and its entry is the one that was kept
        by_cases htf : target = first
        · exact fun heq => hback (heq.trans htf)
        · exact h.free htf position (hwaits hp)
  · by_cases hpt : position = target
    · rw [hpt, h.sourceOn_target (hfirst position hp hpt)]
      exact hne.symm
    · rw [sourceOn_next m target source entry hpt]
      exact hother position hp hpt

/-- **The end of a cycle.** -/
theorem OnCycle.close (hroom : given.HasRoom) (h : OnCycle given first kept target first m)
    (hne : target ≠ first) : Ready given (first + 1) (m.put target kept) := by
  have htarget := h.target_waits
  have hput := h.keeps.pairAt_put_self hroom htarget.2.1 kept
  have hwanted : given.wanted target = some kept := by
    have hwaiting := h.waiting target htarget
    rwa [sourceOn_self, entryOn, Function.update_self, eq_comm] at hwaiting
  have hsourceOn : ∀ position, position ≠ target →
      m.sourceOn target first position = m.source position := fun position hp =>
    Function.update_of_ne hp _ _
  have hself := (h.begun hne).2
  have hlt := waits_of_ne hne htarget
  -- nobody but the last position takes an entry from the first one
  have hbehind : ∀ position, first < position → position < given.sources.size →
      position ≠ target → m.source position ≠ first := fun position hp hlt hpt heq =>
    hpt (h.injective position target (waits_of_lt hp hlt) htarget
      (by rw [hsourceOn position hpt, heq, sourceOn_self]))
  refine ⟨h.keeps.put htarget.2.1 kept, fun position hp => ?_, fun position hp hplt => ?_,
    fun position other hp hplt ho holt heq => ?_, fun position hp hplt => ?_⟩
  · rw [pairAt_put_of_ne m (by omega)]
    rcases Nat.lt_succ_iff_lt_or_eq.mp hp with hbefore | rfl
    · exact h.done position hbefore
    · exact (h.begun hne).1
  · rw [source_put]
    by_cases hpt : position = target
    · rw [hpt, hself]
      exact ⟨hlt, htarget.2.1⟩
    · obtain ⟨hge, hbound⟩ := h.range position (waits_of_lt hp hplt)
      have hnot := hbehind position hp hplt hpt
      rw [hsourceOn position hpt] at hge hbound
      omega
  · rw [source_put] at heq
    by_cases hpt : position = target <;> by_cases hot : other = target
    · rw [hpt, hot]
    · rw [hpt, hself] at heq
      exact absurd ((hsourceOn other hot).trans heq.symm) (h.free hne other (waits_of_lt ho holt))
    · rw [hot, hself] at heq
      exact absurd ((hsourceOn position hpt).trans heq)
        (h.free hne position (waits_of_lt hp hplt))
    · exact h.injective position other (waits_of_lt hp hplt) (waits_of_lt ho holt)
        (by rw [hsourceOn position hpt, hsourceOn other hot, heq])
  · rw [source_put]
    by_cases hpt : position = target
    · rw [hpt, hself, hput, hwanted]
    · have hfree := h.free hne position (waits_of_lt hp hplt)
      have hwaiting := h.waiting position (waits_of_lt hp hplt)
      rw [hsourceOn position hpt] at hfree hwaiting
      rw [pairAt_put_of_ne m hfree, ← hwaiting, entryOn,
        Function.update_of_ne (hbehind position hp hplt hpt)]

end Cycle

/-! ## 5. Coming to an end -/

/-- How many positions are not marked as settled. -/
def unsettled (m : Moving σ τ) : Nat :=
  ((Finset.range m.sources.size).filter fun position => m.source position ≠ position).card

theorem unsettled_le (m : Moving σ τ) : m.unsettled ≤ m.sources.size :=
  (Finset.card_filter_le _ _).trans_eq (Finset.card_range _)

theorem unsettled_pos {position : Nat} (h : position < m.sources.size)
    (hne : m.source position ≠ position) : 0 < m.unsettled :=
  Finset.card_pos.mpr ⟨position, Finset.mem_filter.mpr ⟨Finset.mem_range.mpr h, hne⟩⟩

/-- Every mark counts. -/
theorem unsettled_mark_lt {position : Nat} (h : position < m.sources.size)
    (hne : m.source position ≠ position) : (m.mark position).unsettled < m.unsettled := by
  have hsize : (m.mark position).sources.size = m.sources.size := by simp [mark]
  refine Finset.card_lt_card ⟨fun other hother => ?_, fun hsubset => ?_⟩
  · obtain ⟨hlt, hsource⟩ := Finset.mem_filter.mp hother
    have hother : other ≠ position := by
      rintro rfl
      rw [source_mark, Function.update_self] at hsource
      exact hsource rfl
    rw [source_mark, Function.update_of_ne hother] at hsource
    exact Finset.mem_filter.mpr ⟨hsize ▸ hlt, hsource⟩
  · have hmem := hsubset (Finset.mem_filter.mpr ⟨Finset.mem_range.mpr h, hne⟩)
    have hmarked := (Finset.mem_filter.mp hmem).2
    rw [source_mark, Function.update_self] at hmarked
    exact hmarked rfl

/-- A cycle can be followed to its end. -/
theorem OnCycle.exists_follow (hroom : given.HasRoom) {first : Nat} {kept : σ × τ}
    (hfirst : first < given.sources.size) : ∀ (fuel : Nat) {target source : Nat} {m : Moving σ τ},
    OnCycle given first kept target source m → (source = first → target ≠ first) →
    m.source first ≠ first → m.unsettled ≤ fuel →
    ∃ moved, follow first kept fuel target source m = some moved ∧ Ready given (first + 1) moved
  | 0, target, source, m, h, _, hne, hfuel => by
    have hpos := unsettled_pos (h.keeps.sources.symm ▸ hfirst) hne
    omega
  | fuel + 1, target, source, m, h, hstart, hne, hfuel => by
    by_cases hsource : source = first
    · subst hsource
      exact ⟨_, if_pos rfl, h.close hroom (hstart rfl)⟩
    · obtain ⟨-, hlt, -⟩ := h.source_waits hsource source
      obtain ⟨entry, hentry⟩ := h.keeps.exists_pairAt hroom hlt
      have hbound : source < m.sources.size := h.keeps.sources.symm ▸ hlt
      -- the next position is another one, as no two take their entry from one position
      have hnext : m.source source ≠ source := fun heq => by
        have hne := h.source_ne_target hsource
        refine hne (h.injective source target (h.source_waits hsource target) h.target_waits ?_)
        rw [sourceOn_self, sourceOn, Function.update_of_ne hne, heq]
      have hfewer := unsettled_mark_lt (m := m.put target entry) hbound hnext
      have hsame : (m.put target entry).unsettled = m.unsettled := rfl
      obtain ⟨moved, hmoved, hready⟩ := OnCycle.exists_follow hroom hfirst fuel
        (h.step hroom hsource hentry) (fun _ => hsource)
        (by rwa [source_mark, source_put, Function.update_of_ne (Ne.symm hsource)]) (by omega)
      refine ⟨moved, ?_, hready⟩
      rw [follow, if_neg hsource, hentry, getElem?_sources hbound]
      exact hmoved

/-- The cycle of a position can be settled. -/
theorem Ready.exists_settleAt (hroom : given.HasRoom) {first : Nat} (h : Ready given first m)
    (hfirst : first < given.sources.size) :
    ∃ moved, m.settleAt first = some moved ∧ Ready given (first + 1) moved := by
  have hbound : first < m.sources.size := h.keeps.sources.symm ▸ hfirst
  rw [settleAt, getElem?_sources hbound]
  by_cases hself : m.source first = first
  · exact ⟨m, if_pos hself, h.skip hfirst hself⟩
  · obtain ⟨kept, hkept⟩ := h.keeps.exists_pairAt hroom hfirst
    obtain ⟨moved, hmoved, hready⟩ := (h.onCycle hfirst hkept).exists_follow hroom hfirst
      m.sources.size (fun heq => absurd heq hself) hself m.unsettled_le
    refine ⟨moved, ?_, hready⟩
    simp only [Option.bind_eq_bind, Option.bind_some, if_neg hself, hkept]
    exact hmoved

/-- **If the order has every position once, moving comes to an end, and every position has the entry
that belongs there.** -/
theorem exists_settle (hroom : given.HasRoom)
    (h : given.sources.toList.Perm (List.range given.sources.size)) :
    ∃ moved, given.settle = some moved ∧ Ready given given.sources.size moved := by
  have hall : ∀ count ≤ given.sources.size, ∃ moved,
      (List.range count).foldlM settleAt given = some moved ∧ Ready given count moved := by
    intro count
    induction count with
    | zero => exact fun _ => ⟨given, rfl, ready_self h⟩
    | succ count ih =>
      intro hcount
      obtain ⟨m, hm, hready⟩ := ih (Nat.le_of_succ_le hcount)
      obtain ⟨moved, hmoved, hnext⟩ := hready.exists_settleAt hroom hcount
      refine ⟨moved, ?_, hnext⟩
      rw [List.range_succ, List.foldlM_append, hm]
      simpa using hmoved
  exact hall _ (Nat.le_refl _)

/-! ## 6. Lists -/

theorem pairAt_eq_some_iff {m : Moving σ τ} {position : Nat} {entry : σ × τ} :
    m.pairAt position = some entry ↔
      m.samples[position]? = some entry.1 ∧ m.times[position]? = some entry.2 := by
  unfold pairAt
  cases m.samples[position]? <;> cases m.times[position]? <;> simp [Prod.ext_iff]

/-- The entries of two lists side by side in some order, and what follows them. -/
def arranged (samples : List σ) (times : List τ) (sources : List Nat) : List σ × List τ :=
  let pairs := sources.filterMap fun position => (samples.zip times)[position]?
  (pairs.map Prod.fst ++ samples.drop pairs.length, pairs.map Prod.snd ++ times.drop pairs.length)

/-- Where every entry is there, choosing some is looking each of them up. -/
theorem getElem?_filterMap {γ δ : Type} {f : γ → Option δ} : ∀ {entries : List γ},
    (∀ entry ∈ entries, (f entry).isSome) → ∀ index : Nat,
    (entries.filterMap f)[index]? = entries[index]?.bind f
  | [], _, index => by simp
  | entry :: rest, h, index => by
    obtain ⟨hentry, hrest⟩ := List.forall_mem_cons.mp h
    obtain ⟨result, hresult⟩ := Option.isSome_iff_exists.mp hentry
    rw [List.filterMap_cons_some hresult]
    cases index with
    | zero => simp [hresult]
    | succ index => simpa using getElem?_filterMap hrest index

theorem eq_append_drop {γ : Type} {given start all : List γ} {count : Nat}
    (hcount : start.length = count) (hstart : ∀ index < count, all[index]? = start[index]?)
    (hrest : ∀ index, count ≤ index → all[index]? = given[index]?) :
    all = start ++ given.drop count := by
  refine List.ext_getElem? fun index => ?_
  rw [List.getElem?_append, hcount]
  split
  · rename_i hlt
    exact hstart index hlt
  · rename_i hge
    rw [List.getElem?_drop, Nat.add_sub_cancel' (Nat.le_of_not_lt hge)]
    exact hrest index (Nat.le_of_not_lt hge)

theorem getElem?_zip_eq_pairAt (samples : List σ) (times : List τ) (sources : Array Nat)
    (position : Nat) : (samples.zip times)[position]? =
      pairAt ⟨samples.toArray, times.toArray, sources⟩ position := by
  refine Option.ext fun entry => ?_
  rw [pairAt_eq_some_iff, List.getElem?_zip_eq_some, List.getElem?_toArray, List.getElem?_toArray]

/-- **Moving arranges lists in the order that is given.** -/
theorem exists_settle_eq_arranged {samples : List σ} {times : List τ} {sources : List Nat}
    (h : sources.Perm (List.range (min samples.length times.length))) :
    ∃ moved, settle ⟨samples.toArray, times.toArray, sources.toArray⟩ = some moved ∧
      (moved.samples.toList, moved.times.toList) = arranged samples times sources := by
  have hcount : sources.length = min samples.length times.length := by simpa using h.length_eq
  let given : Moving σ τ := ⟨samples.toArray, times.toArray, sources.toArray⟩
  have hroom : given.HasRoom := ⟨by simp [given]; omega, by simp [given]; omega⟩
  obtain ⟨moved, hmoved, hready⟩ := exists_settle hroom (by simpa [given, hcount] using h)
  refine ⟨moved, hmoved, ?_⟩
  have hsome : ∀ position ∈ sources, ((samples.zip times)[position]?).isSome := by
    intro position hposition
    have hlt := List.mem_range.mp (h.mem_iff.mp hposition)
    simpa using hlt
  have hpairs := getElem?_filterMap hsome
  have hlength : (sources.filterMap fun position => (samples.zip times)[position]?).length =
      sources.length := by
    rw [List.length_filterMap_eq_countP, List.countP_eq_length]
    exact hsome
  unfold arranged
  generalize sources.filterMap (fun position => (samples.zip times)[position]?) = pairs at *
  have hstart : ∀ index < pairs.length,
      moved.samples[index]? = (pairs.map Prod.fst)[index]? ∧
        moved.times[index]? = (pairs.map Prod.snd)[index]? := by
    intro index hindex
    have hlt : index < sources.toArray.size := by simpa [← hlength] using hindex
    have hsource : sources[index]? = some _ := (List.getElem?_toArray ..).symm.trans
      (getElem?_sources (m := ⟨samples.toArray, times.toArray, sources.toArray⟩) hlt)
    have hentry : moved.pairAt index = some pairs[index] := by
      rw [hready.done index hlt, wanted, ← getElem?_zip_eq_pairAt, ← List.getElem?_eq_getElem,
        hpairs, hsource, Option.bind_some]
    simpa [List.getElem?_eq_getElem hindex] using pairAt_eq_some_iff.mp hentry
  have hbeyond : ∀ index, pairs.length ≤ index →
      moved.samples[index]? = samples[index]? ∧ moved.times[index]? = times[index]? := by
    intro index hindex
    simpa [given] using hready.keeps.beyond index (by simpa [given, ← hlength] using hindex)
  refine Prod.ext ?_ ?_
  · refine eq_append_drop (List.length_map _) (fun index hindex => ?_) fun index hindex => ?_
    · exact Array.getElem?_toList.trans (hstart index hindex).1
    · exact Array.getElem?_toList.trans (hbeyond index hindex).1
  · refine eq_append_drop (List.length_map _) (fun index hindex => ?_) fun index hindex => ?_
    · exact Array.getElem?_toList.trans (hstart index hindex).2
    · exact Array.getElem?_toList.trans (hbeyond index hindex).2

end Moving
end SampledProfile
