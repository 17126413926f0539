/-
# Steps that may fail

An operation gives a result or says why there is none.  What is proved of operations says when
they give a result and which one, so all that is needed of the plumbing between them is

* `bind_eq_ok`: two steps in a row give a result exactly when the first does and the second does
  on what the first gave;
* `mapM_eq_ok_iff`: a step for every entry of a list gives a list exactly when every step gives
  the entry at its place.

Where the reasons matter too, `Ends` says what a result is like and of what kind the reasons are.
Where an operation is run on two inputs, `Image` says that both runs have a result or neither has,
and how the second result comes from the first; `Alike` says that they fail for the same reason or
have results that are related.
-/
import Mathlib.Data.List.Forall2
import SampledProfile.Fault

namespace SampledProfile
namespace Outcome

variable {ε α β : Type}

/-! ## 1. Steps in a row -/

theorem bind_eq_ok {x : Except ε α} {f : α → Except ε β} {b : β} :
    x >>= f = .ok b ↔ ∃ a, x = .ok a ∧ f a = .ok b := by
  cases x with
  | error fault => simp [bind, Except.bind]
  | ok a => simp [bind, Except.bind]

theorem ok_bind (a : α) (f : α → Except ε β) : Except.ok a >>= f = f a := rfl

@[simp] theorem pure_eq_ok {a b : α} : (pure a : Except ε α) = .ok b ↔ a = b := by
  simp [pure, Except.pure]

@[simp] theorem throw_ne_ok {fault : ε} {a : α} : (throw fault : Except ε α) ≠ .ok a := by
  simp [throw, throwThe, MonadExceptOf.throw]

/-- A check in front of a step: it has to be passed. -/
theorem check_eq_ok {γ : Type} {c : Prop} [Decidable c] {fault : ε} {f : γ → Except ε β}
    {k : Except ε β} {b : β} :
    (if c then throw fault >>= f else k) = .ok b ↔ ¬ c ∧ k = .ok b := by
  by_cases h : c
  · simp [h, throw, throwThe, MonadExceptOf.throw, bind, Except.bind]
  · simp [h]

theorem map_eq_ok {x : Except ε α} {f : α → β} {b : β} :
    x.map f = .ok b ↔ ∃ a, x = .ok a ∧ f a = b := by
  cases x with
  | error fault => simp [Except.map]
  | ok a => simp [Except.map]

/-- Whether there is a result can be computed. -/
theorem exists_of_isOk {x : Except ε α} (h : x.isOk = true) : ∃ a, x = .ok a := by
  cases x with
  | error fault => cases h
  | ok a => exact ⟨a, rfl⟩

/-! ## 2. A step for every entry of a list -/

theorem mapM_eq_ok_iff {f : α → Except ε β} {xs : List α} {ys : List β} :
    xs.mapM f = .ok ys ↔ List.Forall₂ (fun x y => f x = .ok y) xs ys := by
  induction xs generalizing ys with
  | nil => cases ys <;> simp
  | cons x xs ih =>
    rw [List.mapM_cons, bind_eq_ok]
    constructor
    · rintro ⟨y, hy, h⟩
      obtain ⟨rest, hrest, h⟩ := bind_eq_ok.mp h
      rw [← pure_eq_ok.mp h]
      exact .cons hy (ih.mp hrest)
    · intro h
      obtain _ | ⟨hy, hrest⟩ := h
      exact ⟨_, hy, bind_eq_ok.mpr ⟨_, ih.mpr hrest, rfl⟩⟩

theorem length_of_mapM {f : α → Except ε β} {xs : List α} {ys : List β}
    (h : xs.mapM f = .ok ys) : ys.length = xs.length :=
  (mapM_eq_ok_iff.mp h).length_eq.symm

/-- If every step gives a result, then so do all of them. -/
theorem exists_mapM_of_forall {f : α → Except ε β} {xs : List α}
    (h : ∀ x ∈ xs, ∃ y, f x = .ok y) : ∃ ys, xs.mapM f = .ok ys := by
  induction xs with
  | nil => exact ⟨[], rfl⟩
  | cons x xs ih =>
    obtain ⟨y, hy⟩ := h x List.mem_cons_self
    obtain ⟨ys, hys⟩ := ih fun z hz => h z (List.mem_cons_of_mem _ hz)
    exact ⟨y :: ys, mapM_eq_ok_iff.mpr (.cons hy (mapM_eq_ok_iff.mp hys))⟩

/-- Where two lists correspond, every entry of the first one has a counterpart. -/
theorem exists_of_forall₂ {R : α → β → Prop} {xs : List α} {ys : List β} (h : List.Forall₂ R xs ys)
    {x : α} (hx : x ∈ xs) : ∃ y ∈ ys, R x y := by
  induction h with
  | nil => cases hx
  | cons hhead _ ih =>
    rcases List.mem_cons.mp hx with rfl | hx
    · exact ⟨_, List.mem_cons_self, hhead⟩
    · obtain ⟨y, hy, hxy⟩ := ih hx
      exact ⟨y, List.mem_cons_of_mem _ hy, hxy⟩

/-- The results of steps that are those of a function. -/
theorem mapM_eq_ok_of_forall {f : α → Except ε β} {g : α → β} {xs : List α}
    (h : ∀ x ∈ xs, f x = .ok (g x)) : xs.mapM f = .ok (xs.map g) := by
  rw [mapM_eq_ok_iff, List.forall₂_map_right_iff, List.forall₂_same]
  exact h

/-- Results for all entries of a list are those of a function. -/
theorem exists_map_of_mapM [Nonempty β] {f : α → Except ε β} {xs : List α} {ys : List β}
    (h : xs.mapM f = .ok ys) : ∃ g : α → β, (∀ x ∈ xs, f x = .ok (g x)) ∧ ys = xs.map g := by
  have hsteps : ∀ x ∈ xs, ∃ y, f x = .ok y := fun x hx =>
    (exists_of_forall₂ (mapM_eq_ok_iff.mp h) hx).imp fun _ hy => hy.2
  choose! g hg using hsteps
  exact ⟨g, hg, Except.ok.inj (h.symm.trans (mapM_eq_ok_of_forall hg))⟩

/-- Whatever stands in the list of results is the result of an entry. -/
theorem mem_of_mapM {f : α → Except ε β} {xs : List α} {ys : List β} (h : xs.mapM f = .ok ys)
    {y : β} (hy : y ∈ ys) : ∃ x ∈ xs, f x = .ok y :=
  exists_of_forall₂ (mapM_eq_ok_iff.mp h).flip hy

/-- The result of an entry stands where the entry stands. -/
theorem getElem?_of_mapM {f : α → Except ε β} {xs : List α} {ys : List β}
    (h : xs.mapM f = .ok ys) {index : Nat} {x : α} (hx : xs[index]? = some x) {y : β}
    (hy : f x = .ok y) : ys[index]? = some y := by
  have hall := mapM_eq_ok_iff.mp h
  clear h
  induction hall generalizing index with
  | nil => cases hx
  | cons hhead _ ih =>
    cases index with
    | zero =>
      cases hx
      rw [hy] at hhead
      cases hhead
      rfl
    | succ index => exact ih hx

/-! ## 3. Results and reasons -/

/-- What is there is a result that is good, or a fault of some kind. -/
def Ends (faulty : ε → Prop) (good : α → Prop) : Except ε α → Prop
  | .error fault => faulty fault
  | .ok a => good a

namespace Ends

variable {faulty : ε → Prop} {good : α → Prop} {x : Except ε α}

theorem of_eq_ok {a : α} (h : x = .ok a) (ha : good a) : Ends faulty good x :=
  h ▸ ha

theorem mono {wider : α → Prop} (h : Ends faulty good x) (hgood : ∀ a, good a → wider a) :
    Ends faulty wider x := by
  cases x with
  | error fault => exact h
  | ok a => exact hgood a h

/-- What can be said of the result anyway may be said with it. -/
theorem and_ok {more : α → Prop} (h : Ends faulty good x) (hmore : ∀ a, x = .ok a → more a) :
    Ends faulty (fun a => good a ∧ more a) x := by
  cases x with
  | error fault => exact h
  | ok a => exact ⟨h, hmore a rfl⟩

theorem bind {final : β → Prop} {f : α → Except ε β} (h : Ends faulty good x)
    (hf : ∀ a, good a → Ends faulty final (f a)) : Ends faulty final (x >>= f) := by
  cases x with
  | error fault => exact h
  | ok a => exact hf a h

theorem map {γ : Type} {final : γ → Prop} {f : α → γ} (h : Ends faulty good x)
    (hf : ∀ a, good a → final (f a)) : Ends faulty final (x.map f) := by
  cases x with
  | error fault => exact h
  | ok a => exact hf a h

/-- What holds of the result at every entry holds of all results. -/
theorem mapM {γ : Type} {final : γ → Prop} {f : α → Except ε γ} : ∀ {entries : List α},
    (∀ entry ∈ entries, Ends faulty final (f entry)) →
      Ends faulty (fun results => ∀ result ∈ results, final result) (entries.mapM f)
  | [], _ => by simp [Ends, pure, Except.pure]
  | entry :: rest, h => by
    obtain ⟨hentry, hrest⟩ := List.forall_mem_cons.mp h
    rw [List.mapM_cons]
    refine hentry.bind fun first hfirst => (mapM hrest).bind fun results hresults => ?_
    exact List.forall_mem_cons.mpr ⟨hfirst, hresults⟩

/-- What every step keeps holds in the end. -/
theorem foldlM {γ : Type} {f : α → γ → Except ε α} : ∀ {entries : List γ} {start : α},
    (∀ a, good a → ∀ entry ∈ entries, Ends faulty good (f a entry)) → good start →
      Ends faulty good (entries.foldlM f start)
  | [], _, _, hstart => hstart
  | entry :: rest, start, h, hstart => by
    rw [List.foldlM_cons]
    refine (h start hstart entry List.mem_cons_self).bind fun next hnext => ?_
    exact foldlM (fun a ha other hother => h a ha other (List.mem_cons_of_mem _ hother)) hnext

/-- Where there are no faults of the kind, there is a result. -/
theorem exists_ok (h : Ends (fun _ => False) good x) : ∃ a, x = .ok a ∧ good a := by
  cases x with
  | error fault => exact h.elim
  | ok a => exact ⟨a, rfl, h⟩

end Ends

/-- If there is no result, the fault is of some kind. -/
abbrev FailsAs (faulty : ε → Prop) (x : Except ε α) : Prop := Ends faulty (fun _ => True) x

theorem FailsAs.ok (faulty : ε → Prop) (a : α) : FailsAs faulty (.ok a) := trivial

theorem FailsAs.bind {faulty : ε → Prop} {x : Except ε α} {f : α → Except ε β}
    (h : FailsAs faulty x) (hf : ∀ a, FailsAs faulty (f a)) : FailsAs faulty (x >>= f) :=
  Ends.bind h fun a _ => hf a

theorem FailsAs.map {faulty : ε → Prop} {x : Except ε α} (h : FailsAs faulty x) (f : α → β) :
    FailsAs faulty (x.map f) :=
  Ends.map h fun _ _ => trivial

theorem Ends.failsAs {faulty : ε → Prop} {good : α → Prop} {x : Except ε α}
    (h : Ends faulty good x) : FailsAs faulty x :=
  h.mono fun _ _ => trivial

/-! ## 4. Two runs side by side -/

/-- Neither has a result, or both have, and the second is what `g` makes of the first. -/
inductive Image (g : α → β) : Except ε α → Except ε β → Prop
  | error (fault other : ε) : Image g (.error fault) (.error other)
  | ok (a : α) : Image g (.ok a) (.ok (g a))

namespace Image

variable {γ δ : Type} {g : α → β} {k : γ → δ} {x : Except ε α} {y : Except ε β}

theorem map_self (g : α → β) (x : Except ε α) : Image g x (x.map g) := by
  cases x with
  | error fault => exact .error fault fault
  | ok a => exact .ok a

theorem eq_ok_iff (h : Image g x y) {b : β} : y = .ok b ↔ ∃ a, x = .ok a ∧ g a = b := by
  cases h with
  | error fault other => simp
  | ok a => simp

theorem bind {f : α → Except ε γ} {f' : β → Except ε δ} (h : Image g x y)
    (hf : ∀ a, x = .ok a → Image k (f a) (f' (g a))) : Image k (x >>= f) (y >>= f') := by
  cases h with
  | error fault other => exact .error fault other
  | ok a => exact hf a rfl

/-- A first step that is the same in both runs. -/
theorem bind_same {f : α → Except ε γ} {f' : α → Except ε δ}
    (hf : ∀ a, x = .ok a → Image k (f a) (f' a)) : Image k (x >>= f) (x >>= f') := by
  cases x with
  | error fault => exact .error fault fault
  | ok a => exact hf a rfl

theorem map {f : α → γ} {f' : β → δ} (h : Image g x y) (hf : ∀ a, f' (g a) = k (f a)) :
    Image k (x.map f) (y.map f') := by
  cases h with
  | error fault other => exact .error fault other
  | ok a =>
    change Image k (.ok (f a)) (.ok (f' (g a)))
    rw [hf]
    exact .ok (f a)

/-- A check that both runs pass or neither does. -/
theorem check {ζ η : Type} {c : Prop} [Decidable c] {fault other : ε} {f : ζ → Except ε α}
    {f' : η → Except ε β} (h : ¬ c → Image g x y) :
    Image g (if c then throw fault >>= f else x) (if c then throw other >>= f' else y) := by
  by_cases hc : c
  · rw [if_pos hc, if_pos hc]
    exact .error fault other
  · rw [if_neg hc, if_neg hc]
    exact h hc

theorem mapM {f : α → Except ε γ} {f' : β → Except ε δ} : ∀ {entries : List α},
    (∀ entry ∈ entries, Image k (f entry) (f' (g entry))) →
      Image (List.map k) (entries.mapM f) ((entries.map g).mapM f')
  | [], _ => .ok []
  | entry :: rest, h => by
    obtain ⟨hentry, hrest⟩ := List.forall_mem_cons.mp h
    rw [List.map_cons, List.mapM_cons, List.mapM_cons]
    exact hentry.bind fun c _ => (mapM hrest).bind fun cs _ => .ok (c :: cs)

theorem foldlM {f : γ → α → Except ε γ} {f' : δ → β → Except ε δ} :
    ∀ {entries : List α} {start : γ},
      (∀ c, ∀ entry ∈ entries, Image k (f c entry) (f' (k c) (g entry))) →
        Image k (entries.foldlM f start) ((entries.map g).foldlM f' (k start))
  | [], start, _ => .ok start
  | entry :: rest, start, h => by
    rw [List.map_cons, List.foldlM_cons, List.foldlM_cons]
    exact (h start entry List.mem_cons_self).bind fun next _ =>
      foldlM fun c other hother => h c other (List.mem_cons_of_mem _ hother)

end Image

/-! ## 5. Two runs that go alike -/

/-- Both fail for the same reason, or they have results that are related. -/
inductive Alike (R : α → β → Prop) : Except ε α → Except ε β → Prop
  | error (fault : ε) : Alike R (.error fault) (.error fault)
  | ok {a : α} {b : β} : R a b → Alike R (.ok a) (.ok b)

namespace Alike

variable {γ δ : Type} {R : α → β → Prop} {S : γ → δ → Prop} {x : Except ε α} {y : Except ε β}

theorem exists_ok (h : Alike R x y) {a : α} (ha : x = .ok a) : ∃ b, y = .ok b ∧ R a b := by
  subst ha
  cases h with
  | ok hab => exact ⟨_, rfl, hab⟩

theorem exists_ok_left (h : Alike R x y) {b : β} (hb : y = .ok b) : ∃ a, x = .ok a ∧ R a b := by
  subst hb
  cases h with
  | ok hab => exact ⟨_, rfl, hab⟩

/-- What follows for the results, given that the first run has the one it has. -/
theorem imp {T : α → β → Prop} (h : Alike R x y) (himp : ∀ a b, x = .ok a → R a b → T a b) :
    Alike T x y := by
  cases h with
  | error fault => exact .error fault
  | ok hab => exact .ok (himp _ _ rfl hab)

theorem bind {f : α → Except ε γ} {f' : β → Except ε δ} (h : Alike R x y)
    (hf : ∀ a b, R a b → Alike S (f a) (f' b)) : Alike S (x >>= f) (y >>= f') := by
  cases h with
  | error fault => exact .error fault
  | ok hab => exact hf _ _ hab

/-- A first step that is the same in both runs. -/
theorem bind_same {f : α → Except ε γ} {f' : α → Except ε δ}
    (hf : ∀ a, x = .ok a → Alike S (f a) (f' a)) : Alike S (x >>= f) (x >>= f') := by
  cases x with
  | error fault => exact .error fault
  | ok a => exact hf a rfl

/-- A check that both runs pass or neither does. -/
theorem check {ζ η : Type} {c : Prop} [Decidable c] {fault : ε} {f : ζ → Except ε α}
    {f' : η → Except ε β} (h : Alike R x y) :
    Alike R (if c then throw fault >>= f else x) (if c then throw fault >>= f' else y) := by
  by_cases hc : c
  · rw [if_pos hc, if_pos hc]
    exact .error fault
  · rw [if_neg hc, if_neg hc]
    exact h

/-- Steps that go alike on entries that are related give lists that are related. -/
theorem mapM {f : α → Except ε γ} {f' : β → Except ε δ} {xs : List α} {ys : List β}
    (h : List.Forall₂ R xs ys) (hf : ∀ a b, R a b → Alike S (f a) (f' b)) :
    Alike (List.Forall₂ S) (xs.mapM f) (ys.mapM f') := by
  induction h with
  | nil => exact .ok .nil
  | cons hab _ ih =>
    rw [List.mapM_cons, List.mapM_cons]
    exact (hf _ _ hab).bind fun c d hcd => ih.bind fun cs ds hall => .ok (.cons hcd hall)

theorem foldlM {f : γ → α → Except ε γ} {f' : δ → β → Except ε δ} {xs : List α} {ys : List β}
    (h : List.Forall₂ R xs ys) (hf : ∀ c d, S c d → ∀ a b, R a b → Alike S (f c a) (f' d b))
    {start : γ} {start' : δ} (hstart : S start start') :
    Alike S (xs.foldlM f start) (ys.foldlM f' start') := by
  induction h generalizing start start' with
  | nil => exact .ok hstart
  | cons hab _ ih =>
    rw [List.foldlM_cons, List.foldlM_cons]
    exact (hf _ _ hstart _ _ hab).bind fun c d hcd => ih hcd

end Alike

end Outcome
end SampledProfile
