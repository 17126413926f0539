/-
# Numbers that are too long to read

The reader refuses a text for one of two reasons.  Either the text is no value, and then the place
of the problem is known, or it has a whole number of too many digits.  The second is met only where
so many digits stand in a row (`Json.hasLongNumber_of_read`); and a text that is such a number and
nothing else is refused so (`Json.read_of_long`).

The reader goes through a text from the front.  So what is left after a step is an end of what was
there before it (`Json.Reads`), and a number that it meets is a part of the text.
-/
import SampledProfile.Json.Reader
import SampledProfile.Proofs.Outcome

namespace SampledProfile
namespace Json

open Outcome

/-! ## 1. Steps of the reader -/

/-- More digits stand in a row than a whole number may have. -/
def HasLongNumber (cs : List Char) : Prop :=
  ∃ digits, digits <:+: cs ∧ (∀ c ∈ digits, c.isDigit = true) ∧ Text.mostDigits < digits.length

theorem HasLongNumber.mono {part cs : List Char} (h : HasLongNumber part) (hpart : part <:+: cs) :
    HasLongNumber cs := by
  obtain ⟨digits, hin, hdigits, hlong⟩ := h
  exact ⟨digits, hin.trans hpart, hdigits, hlong⟩

/-- A step that reads from the front of a text: what it leaves is an end of it, and if it refuses a
number, it is one of the text. -/
def Reads {β : Type} (cs : List Char) (step : Step β) : Prop :=
  Ends (fun refusal => refusal = .tooManyDigits → HasLongNumber cs)
    (fun result => result.2.rest <:+ cs) step

namespace Reads

variable {β γ : Type} {cs : List Char}

theorem refuse (c : Cursor) (problem : Problem) : Reads cs (c.refuse problem : Step β) := nofun

theorem problem (problem : Problem) (position : Nat) :
    Reads cs (.error (.at problem position) : Step β) := nofun

theorem ok {c : Cursor} (result : β) (h : c.rest <:+ cs) : Reads cs (.ok (result, c)) := h

theorem mono {part : List Char} {step : Step β} (h : Reads part step) (hpart : part <:+ cs) :
    Reads cs step := by
  cases step with
  | error refusal => exact fun hdigits => (h hdigits).mono hpart.isInfix
  | ok result => exact List.IsSuffix.trans h hpart

theorem bind {step : Except Refusal (β × Cursor)} {next : β × Cursor → Except Refusal (γ × Cursor)}
    (h : Reads cs step) (hnext : ∀ result c, c.rest <:+ cs → Reads cs (next (result, c))) :
    Reads cs (step >>= next : Except Refusal (γ × Cursor)) :=
  Ends.bind h fun result => hnext result.1 result.2

theorem map {step : Except Refusal (β × Cursor)} {next : β × Cursor → γ × Cursor}
    (h : Reads cs step) (hnext : ∀ result c, (next (result, c)).2 = c) :
    Reads cs (step.map next) :=
  Ends.map h fun result hresult => (hnext result.1 result.2).symm ▸ hresult

end Reads

theorem suffix_forward (c : Cursor) (n : Nat) : (c.forward n).rest <:+ c.rest :=
  List.drop_suffix n c.rest

theorem suffix_skip (c : Cursor) : c.skip.rest <:+ c.rest := suffix_forward c _

/-! ## 2. Texts, words and numbers -/

theorem reads_textFrom (opening pos : Nat) (cs read : List Char) :
    Reads cs (textFrom opening pos cs read) := by
  fun_induction textFrom opening pos cs read with
  | case1 | case3 | case4 | case5 | case10 | case12 | case13 => exact .problem _ _
  | case2 => exact .ok _ (List.suffix_cons _ _)
  -- a pair of codes, one code, a mark behind a backslash, and a character for itself
  | case6 =>
    rename_i ih
    exact ih.mono (List.suffix_append [_, _, _, _, _, _, _, _, _, _, _, _] _)
  | case7 | case8 | case9 =>
    rename_i ih
    exact ih.mono (List.suffix_append [_, _, _, _, _, _] _)
  | case11 =>
    rename_i ih
    exact ih.mono (List.suffix_append [_, _] _)
  | case14 =>
    rename_i ih
    exact ih.mono (List.suffix_cons _ _)

theorem digits_wholeOf (cs : List Char) : ∀ c ∈ wholeOf cs, c.isDigit = true := by
  unfold wholeOf
  split
  · simp
  · exact List.all_eq_true.mp List.all_takeWhile

theorem prefix_wholeOf (cs : List Char) : wholeOf cs <+: cs := by
  unfold wholeOf
  split
  · exact ⟨_, rfl⟩
  · exact List.takeWhile_prefix _

theorem reads_number (c : Cursor) : Reads c.rest (number c) := by
  unfold number
  dsimp only
  generalize (if c.rest.head? = some '-' then 1 else 0) = signWidth
  split
  · exact .refuse c _
  split
  · split
    · rename_i hlong
      refine fun _ => ⟨_, ?_, digits_wholeOf _, hlong⟩
      exact (prefix_wholeOf _).isInfix.trans (List.drop_suffix _ _).isInfix
    · exact .ok _ (suffix_forward c _)
  · exact .ok _ (suffix_forward c _)

theorem reads_word (c : Cursor) : Reads c.rest (word c) := by
  unfold word
  split
  · exact .ok _ (suffix_forward c _)
  · exact reads_number c

/-! ## 3. Values -/

mutual

theorem reads_value : ∀ (fuel : Nat) (c : Cursor), Reads c.rest (value fuel c)
  | 0, c => .refuse c _
  | fuel + 1, c => by
    have hinner : (c.forward 1).skip.rest <:+ c.rest :=
      (suffix_skip _).trans (suffix_forward c 1)
    unfold value
    split
    · rename_i rest hrest
      refine .map ((reads_textFrom _ _ rest []).mono ?_) fun _ _ => rfl
      exact hrest ▸ List.suffix_cons _ rest
    · dsimp only
      split
      · exact .ok _ ((suffix_forward _ 1).trans hinner)
      · exact (reads_items fuel _ []).mono hinner
    · dsimp only
      split
      · exact .ok _ ((suffix_forward _ 1).trans hinner)
      · exact (reads_members fuel _ []).mono hinner
    · exact reads_word c

theorem reads_items : ∀ (fuel : Nat) (c : Cursor) (read : List (Value Number)),
    Reads c.rest (items fuel c read)
  | 0, c, _ => .refuse c _
  | fuel + 1, c, read => by
    unfold items
    refine (reads_value fuel c).bind fun item left hleft => ?_
    have hlast : (left.skip.forward 1).rest <:+ c.rest :=
      (suffix_forward _ 1).trans ((suffix_skip left).trans hleft)
    dsimp only
    split
    · exact .ok _ hlast
    · exact (reads_items fuel _ _).mono ((suffix_skip _).trans hlast)
    · exact .refuse _ _

theorem reads_members : ∀ (fuel : Nat) (c : Cursor) (read : Fields Number),
    Reads c.rest (members fuel c read)
  | 0, c, _ => .refuse c _
  | fuel + 1, c, read => by
    unfold members
    split
    · rename_i rest hrest
      have hname : Reads c.rest (textFrom c.position (c.position + 1) rest []) :=
        (reads_textFrom _ _ rest []).mono (hrest ▸ List.suffix_cons _ rest)
      refine hname.bind fun name named hnamed => ?_
      dsimp only
      split
      · have hcolon : (named.skip.forward 1).skip.rest <:+ c.rest :=
          (suffix_skip _).trans ((suffix_forward _ 1).trans ((suffix_skip named).trans hnamed))
        refine ((reads_value fuel _).mono hcolon).bind fun item left hleft => ?_
        have hlast : (left.skip.forward 1).rest <:+ c.rest :=
          (suffix_forward _ 1).trans ((suffix_skip left).trans hleft)
        dsimp only
        split
        · exact .ok _ hlast
        · exact (reads_members fuel _ _).mono ((suffix_skip _).trans hlast)
        · exact .refuse _ _
      · exact .refuse _ _
    · exact .refuse c _

end

/-- **The reader refuses a number only where too many digits stand in a row.** -/
theorem hasLongNumber_of_read {cs : List Char} (h : read cs = .error .tooManyDigits) :
    HasLongNumber cs := by
  have hreads : Reads cs (value (2 * cs.length + 2) (Cursor.mk 0 cs).skip) :=
    (reads_value _ _).mono (suffix_skip _)
  unfold read at h
  split at h
  · cases h
  · generalize value (2 * cs.length + 2) (Cursor.mk 0 cs).skip = step at h hreads
    cases step with
    | error refusal =>
      cases h
      exact hreads rfl
    | ok result =>
      rw [ok_bind] at h
      dsimp only at h
      split at h
      · cases h
      · cases h

/-! ## 4. A number alone -/

section Alone

variable {c : Char} {rest : List Char}

theorem wholeOf_eq_self (h : ∀ d ∈ c :: rest, d.isDigit = true) (hc : c ≠ '0') :
    wholeOf (c :: rest) = c :: rest := by
  unfold wholeOf
  split
  · rename_i heq
    cases heq
    exact absurd rfl hc
  · rw [Text.digitsOf, ← List.append_nil (c :: rest), List.takeWhile_append_of_pos h]
    simp

theorem number_of_long {position : Nat} (h : ∀ d ∈ c :: rest, d.isDigit = true) (hc : c ≠ '0')
    (hlong : Text.mostDigits < (c :: rest).length) :
    number ⟨position, c :: rest⟩ = .error .tooManyDigits := by
  have hdigit : c.isDigit = true := h c List.mem_cons_self
  have hsign : (c :: rest).head? ≠ some '-' := by
    rintro ⟨⟩
    cases hdigit
  unfold number
  simp only [if_neg hsign, List.drop_zero, wholeOf_eq_self h hc, Nat.zero_add, List.drop_length,
    List.isEmpty_cons, fractionOf, Text.exponentOf?, List.drop_nil, if_pos hlong]
  rfl

/-- No word begins with a digit. -/
theorem find?_words_of_isDigit (h : c.isDigit = true) :
    words.find? (fun entry => entry.1.toList.isPrefixOf (c :: rest)) = none := by
  have hletters : ∀ entry ∈ words, entry.1.toList.head?.map Char.isDigit = some false := by decide
  rw [List.find?_eq_none]
  intro entry hentry hprefix
  obtain ⟨tail, htail⟩ := List.isPrefixOf_iff_prefix.mp hprefix
  have hfirst := hletters entry hentry
  cases hchars : entry.1.toList with
  | nil => simp [hchars] at hfirst
  | cons first letters =>
    rw [hchars] at htail
    cases htail
    simp [hchars, h] at hfirst

/-- **A text that is one whole number of too many digits is refused for that.** -/
theorem read_of_long (h : ∀ d ∈ c :: rest, d.isDigit = true) (hc : c ≠ '0')
    (hlong : Text.mostDigits < (c :: rest).length) : read (c :: rest) = .error .tooManyDigits := by
  have hdigit : c.isDigit = true := h c List.mem_cons_self
  have hmark : (c :: rest).head? ≠ some '\uFEFF' := by
    rintro ⟨⟩
    cases hdigit
  have hgap : isGap c = false := by
    by_contra hgap
    simp only [isGap, Bool.not_eq_false, Bool.or_eq_true, decide_eq_true_eq] at hgap
    rcases hgap with ((rfl | rfl) | rfl) | rfl <;> cases hdigit
  have hskip : (Cursor.mk 0 (c :: rest)).skip = ⟨0, c :: rest⟩ := by
    simp [Cursor.skip, Cursor.forward, hgap]
  have hvalue : value (2 * (c :: rest).length + 2) ⟨0, c :: rest⟩ = .error .tooManyDigits := by
    unfold value
    split
    · rename_i heq
      cases heq
      cases hdigit
    · rename_i heq
      cases heq
      cases hdigit
    · rename_i heq
      cases heq
      cases hdigit
    · rw [word, find?_words_of_isDigit hdigit]
      exact number_of_long h hc hlong
  rw [read, if_neg hmark, hskip, hvalue]
  rfl

end Alone

end Json
end SampledProfile
