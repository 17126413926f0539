/-
# Ways through the tree are differences of paths

The PATH of a position are the positions from below the root down to it (`Arena.path`), so it has as
many entries as the position has steps from the root.  To get from the stack of one node to that of
another, what lies behind the longest common prefix of their paths has to close and to open
(`move_eq`), although `Arena.move` never looks at paths: it goes up, first from the deeper one of
the two until both are equally deep, then from both until they meet.
-/
import SampledProfile.Proofs.Arena
import SampledProfile.Replay

namespace SampledProfile

/-! ## 1. Common prefixes -/

section Shared

variable {γ δ : Type} [DecidableEq γ] [DecidableEq δ]

/-- The length of the longest common prefix of two lists. -/
def shared : List γ → List γ → Nat
  | x :: xs, y :: ys => if x = y then shared xs ys + 1 else 0
  | _, _ => 0

/-- Up to there both lists are the same, and if both go on they go on differently. -/
theorem shared_spec : ∀ xs ys : List γ,
    xs.take (shared xs ys) = ys.take (shared xs ys) ∧
      ∀ x y, xs[shared xs ys]? = some x → ys[shared xs ys]? = some y → x ≠ y
  | [], ys => by simp [shared]
  | x :: xs, [] => by simp [shared]
  | x :: xs, y :: ys => by
    by_cases h : x = y
    · obtain ⟨htake, hnext⟩ := shared_spec xs ys
      simpa [shared, h] using ⟨htake, hnext⟩
    · simp [shared, h]

theorem shared_self_append (xs ys : List γ) : shared xs (xs ++ ys) = xs.length := by
  induction xs with
  | nil => rfl
  | cons x xs ih => simp [shared, ih]

theorem shared_comm : ∀ xs ys : List γ, shared xs ys = shared ys xs
  | [], [] => rfl
  | [], _ :: _ => rfl
  | _ :: _, [] => rfl
  | x :: xs, y :: ys => by
    simp only [shared, shared_comm xs ys, eq_comm (a := x) (b := y)]

theorem shared_le_length : ∀ xs ys : List γ, shared xs ys ≤ xs.length
  | [], _ => Nat.le_refl 0
  | _ :: _, [] => Nat.zero_le _
  | x :: xs, y :: ys => by
    have := shared_le_length xs ys
    simp only [shared, List.length_cons]
    split <;> omega

/-- Behind lists of one length nothing more is shared, if they differ or one of them ends. -/
theorem shared_append : ∀ {xs ys us vs : List γ}, xs.length = ys.length →
    (xs = ys → shared us vs = 0) → shared (xs ++ us) (ys ++ vs) = shared xs ys
  | [], [], us, vs, _, h => h rfl
  | x :: xs, y :: ys, us, vs, hlength, h => by
    simp only [List.cons_append, shared]
    split
    · rename_i heq
      rw [shared_append (by simpa using hlength) fun hrest => h (by rw [heq, hrest])]
    · rfl

theorem shared_map {f : γ → δ} (hf : ∀ x y, f x = f y → x = y) : ∀ xs ys : List γ,
    shared (xs.map f) (ys.map f) = shared xs ys
  | [], _ => rfl
  | _ :: _, [] => rfl
  | x :: xs, y :: ys => by
    have hiff : f x = f y ↔ x = y := ⟨hf x y, congrArg f⟩
    simp only [List.map_cons, shared, hiff, shared_map hf xs ys]

end Shared

namespace Arena

variable {β α : Type}

/-! ## 2. Paths -/

/-- The positions from below the root down to a position. -/
def path (arena : Arena β α) (position : Nat) : List Nat :=
  (arena.upwards (arena.depth position) position).reverse

namespace WellPlaced

variable {arena : Arena β α}

theorem path_root (h : arena.WellPlaced) : arena.path 0 = [] := by
  rw [path, h.rootDepth]
  rfl

/-- A position comes at the end of its path, behind the path of its parent. -/
theorem path_of_parent {position above : Nat} (hparent : arena.parent? position = some above)
    (hdepth : arena.depth position = arena.depth above + 1) :
    arena.path position = arena.path above ++ [position] := by
  rw [path, hdepth, upwards, hparent, path]
  simp

/-- What holds of the root, and of a position if it holds of its parent, holds of all positions. -/
theorem induction (h : arena.WellPlaced) {P : Nat → Prop} (root : P 0)
    (child : ∀ position above, position < arena.size → above < position →
      arena.parent? position = some above → arena.depth position = arena.depth above + 1 →
      P above → P position) : ∀ position < arena.size, P position := by
  intro position
  induction position using Nat.strongRecOn with
  | ind position ih =>
    intro hp
    by_cases hzero : position = 0
    · exact hzero ▸ root
    · obtain ⟨above, hlt, hparent, hdepth⟩ := h.parent position hp (Nat.pos_of_ne_zero hzero)
      exact child position above hp hlt hparent hdepth (ih above hlt (Nat.lt_trans hlt hp))

theorem length_path (h : arena.WellPlaced) :
    ∀ position < arena.size, (arena.path position).length = arena.depth position := by
  refine h.induction ?_ fun position above _ _ hparent hdepth ih => ?_
  · rw [h.path_root, h.rootDepth]
    rfl
  · rw [path_of_parent hparent hdepth, List.length_append, List.length_singleton, ih, hdepth]

/-- Only the root has no steps to the root. -/
theorem eq_zero_of_depth (h : arena.WellPlaced) {position : Nat} (hp : position < arena.size)
    (hdepth : arena.depth position = 0) : position = 0 := by
  by_contra hne
  obtain ⟨above, -, -, hd⟩ := h.parent position hp (Nat.pos_of_ne_zero hne)
  omega

theorem pos_of_depth_pos (h : arena.WellPlaced) {position : Nat} (hpos : 0 < arena.depth position) :
    0 < position := by
  rcases Nat.eq_zero_or_pos position with rfl | hp
  · rw [h.rootDepth] at hpos
    exact hpos
  · exact hp

/-- Two positions of one depth that differ are not the root. -/
theorem depth_pos_of_ne (h : arena.WellPlaced) {position other : Nat} (hp : position < arena.size)
    (ho : other < arena.size) (hdepth : arena.depth position = arena.depth other)
    (hne : position ≠ other) : 0 < arena.depth position := by
  rcases Nat.eq_zero_or_pos (arena.depth position) with hzero | hpos
  · have hroot : position = 0 := h.eq_zero_of_depth hp hzero
    have hother : other = 0 := h.eq_zero_of_depth ho (hdepth ▸ hzero)
    exact absurd (hroot.trans hother.symm) hne
  · exact hpos

/-- The entry at an index of a path lies one deeper. -/
theorem depth_getElem?_path (h : arena.WellPlaced) : ∀ position < arena.size,
    ∀ index node, (arena.path position)[index]? = some node → arena.depth node = index + 1 := by
  refine h.induction ?_ fun position above hp hlt hparent hdepth ih index node hnode => ?_
  · rw [h.path_root]
    simp
  · rw [path_of_parent hparent hdepth] at hnode
    have hlength := h.length_path above (Nat.lt_trans hlt hp)
    by_cases hindex : index < (arena.path above).length
    · rw [List.getElem?_append_left hindex] at hnode
      exact ih index node hnode
    · rw [List.getElem?_append_right (by omega), List.getElem?_singleton] at hnode
      split at hnode
      · cases hnode
        omega
      · cases hnode

/-- The entry behind another one in a path is a child of it. -/
theorem parent_getElem?_path (h : arena.WellPlaced) : ∀ position < arena.size,
    ∀ index above node, (arena.path position)[index]? = some above →
      (arena.path position)[index + 1]? = some node → arena.parent? node = some above := by
  refine h.induction (by simp [h.path_root])
    fun position parent hp hlt hparent hdepth ih index above node habove hnode => ?_
  have hpath := path_of_parent hparent hdepth
  have hlength := h.length_path parent (Nat.lt_trans hlt hp)
  rw [hpath] at habove hnode
  by_cases hindex : index + 1 < (arena.path parent).length
  · rw [List.getElem?_append_left hindex] at hnode
    rw [List.getElem?_append_left (by omega)] at habove
    exact ih index above node habove hnode
  · rw [List.getElem?_append_right (by omega), List.getElem?_singleton] at hnode
    split at hnode
    · cases hnode
      have hpos : 0 < parent := h.pos_of_depth_pos (by omega)
      obtain ⟨higher, -, hhigher, hdepths⟩ := h.parent parent (Nat.lt_trans hlt hp) hpos
      rw [List.getElem?_append_left (by omega), path_of_parent hhigher hdepths] at habove
      rw [path_of_parent hhigher hdepths, List.length_append, List.length_singleton] at hindex
      rw [List.getElem?_append_right (by omega), List.getElem?_singleton] at habove
      split at habove
      · exact hparent.trans habove
      · cases habove
    · cases hnode

/-- Going up some steps cuts off the end of a path. -/
theorem path_above (h : arena.WellPlaced) : ∀ (steps : Nat) {position : Nat},
    position < arena.size → steps ≤ arena.depth position →
      arena.above steps position < arena.size ∧
      arena.depth (arena.above steps position) + steps = arena.depth position ∧
      arena.path position =
        arena.path (arena.above steps position) ++ (arena.upwards steps position).reverse
  | 0, position, hp, _ => ⟨hp, rfl, by simp [above, upwards]⟩
  | steps + 1, position, hp, hsteps => by
    obtain ⟨parent, hlt, hparent, hdepth⟩ :=
      h.parent position hp (h.pos_of_depth_pos (by omega))
    obtain ⟨habove, hsum, hpath⟩ :=
      path_above h steps (Nat.lt_trans hlt hp) (show steps ≤ arena.depth parent by omega)
    simp only [above, upwards, hparent]
    refine ⟨habove, by omega, ?_⟩
    rw [path_of_parent hparent hdepth, hpath, List.reverse_cons, List.append_assoc]

/-! ## 3. Differences -/

/-- A position other than the root stands at the end of its path, behind the path of its parent. -/
theorem exists_parent (h : arena.WellPlaced) {position : Nat} (hp : position < arena.size)
    (hne : 0 < position) : ∃ above < arena.size, arena.parent? position = some above ∧
      arena.depth position = arena.depth above + 1 ∧
      arena.path position = arena.path above ++ [position] := by
  obtain ⟨above, hlt, hparent, hdepth⟩ := h.parent position hp hne
  exact ⟨above, Nat.lt_trans hlt hp, hparent, hdepth, path_of_parent hparent hdepth⟩

/-- Going up from two positions of one depth until they meet passes what lies behind the common
prefix of their paths. -/
theorem meet_eq (h : arena.WellPlaced) : ∀ (fuel : Nat) {old new : Nat}, old < arena.size →
    new < arena.size → arena.depth old = arena.depth new → arena.depth old ≤ fuel →
      arena.meet fuel old new =
        (((arena.path old).drop (shared (arena.path old) (arena.path new))).reverse,
          ((arena.path new).drop (shared (arena.path old) (arena.path new))).reverse)
  | 0, old, new, ho, hn, hdepth, hfuel => by
    rw [h.eq_zero_of_depth ho (by omega), h.eq_zero_of_depth hn (by omega), h.path_root]
    rfl
  | fuel + 1, old, new, ho, hn, hdepth, hfuel => by
    by_cases heq : old = new
    · subst heq
      have hall : shared (arena.path old) (arena.path old) = (arena.path old).length := by
        simpa using shared_self_append (arena.path old) []
      rw [meet, if_pos rfl, hall]
      simp
    · have hpos : 0 < arena.depth old := h.depth_pos_of_ne ho hn hdepth heq
      obtain ⟨old', ho', hparentOld, hdepthOld, hpathOld⟩ :=
        h.exists_parent ho (h.pos_of_depth_pos hpos)
      obtain ⟨new', hn', hparentNew, hdepthNew, hpathNew⟩ :=
        h.exists_parent hn (h.pos_of_depth_pos (hdepth ▸ hpos))
      have hlength : (arena.path old').length = (arena.path new').length := by
        rw [h.length_path old' ho', h.length_path new' hn']
        omega
      have hshared : shared (arena.path old) (arena.path new) =
          shared (arena.path old') (arena.path new') := by
        rw [hpathOld, hpathNew]
        exact shared_append hlength fun _ => by simp [shared, heq]
      have hle := shared_le_length (arena.path old') (arena.path new')
      rw [meet, if_neg heq, hparentOld, hparentNew]
      simp only [meet_eq h fuel ho' hn' (by omega) (by omega), hshared]
      rw [hpathOld, hpathNew, List.drop_append_of_le_length hle,
        List.drop_append_of_le_length (hlength ▸ hle)]
      simp

/-- **From one stack to another, what lies behind the longest common prefix of the paths closes,
innermost first, and opens, outermost first.** -/
theorem move_eq (h : arena.WellPlaced) {old new : Nat} (ho : old < arena.size)
    (hn : new < arena.size) :
    arena.move old new =
      (((arena.path old).drop (shared (arena.path old) (arena.path new))).reverse,
        (arena.path new).drop (shared (arena.path old) (arena.path new))) := by
  obtain ⟨habove, hsum, hpath⟩ := h.path_above (arena.depth old - arena.depth new) ho (by omega)
  obtain ⟨habove', hsum', hpath'⟩ := h.path_above (arena.depth new - arena.depth old) hn (by omega)
  simp only [move]
  generalize hfall : arena.depth old - arena.depth new = fall at habove hsum hpath ⊢
  generalize hrise : arena.depth new - arena.depth old = rise at habove' hsum' hpath' ⊢
  rw [h.meet_eq (arena.depth old) habove habove' (by omega) (by omega)]
  have hlength : (arena.path (arena.above fall old)).length =
      (arena.path (arena.above rise new)).length := by
    rw [h.length_path _ habove, h.length_path _ habove']
    omega
  have hle := shared_le_length (arena.path (arena.above fall old))
    (arena.path (arena.above rise new))
  have hshared : shared (arena.path old) (arena.path new) =
      shared (arena.path (arena.above fall old)) (arena.path (arena.above rise new)) := by
    rw [hpath, hpath']
    refine shared_append hlength fun _ => ?_
    -- the deeper one of the two is only on one side
    rcases Nat.eq_zero_or_pos fall with rfl | hpos
    · simp [upwards, shared]
    · obtain rfl : rise = 0 := by omega
      rw [shared_comm]
      simp [upwards, shared]
  rw [hshared, hpath, hpath', List.drop_append_of_le_length hle,
    List.drop_append_of_le_length (hlength ▸ hle)]
  simp

end WellPlaced
end Arena
end SampledProfile
