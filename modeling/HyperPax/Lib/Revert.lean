/-
  Lib/Revert.lean --- fallible operations whose failure undoes everything.

  A contract call that reverts leaves no trace, so an operation is a function into
  `Except ε`: a new state, or a reason and the old state as it was.  A body is a
  `do` block; the lemmas below take the run of one that succeeded apart, one statement
  at a time.
-/
import Mathlib

set_option autoImplicit false

namespace HyperPax.Lib

variable {ε α β : Type} {x : Except ε α} {f : α → Except ε β} {b : β} {c : Prop} {e : ε}
  {o : Option α} {a : α}

/-- `require(c)` with a reason. -/
def require (c : Prop) [Decidable c] (e : ε) : Except ε Unit :=
  if c then .ok () else .error e

/-- The value of an optional, or a revert. -/
def orRevert (o : Option α) (e : ε) : Except ε α :=
  match o with
  | some a => .ok a
  | none => .error e

theorem bind_ok : (x >>= f) = .ok b ↔ ∃ a, x = .ok a ∧ f a = .ok b := by
  cases x with
  | error =>
    constructor
    · intro h
      cases h
    · rintro ⟨a, h, -⟩
      cases h
  | ok a =>
    constructor
    · intro h
      exact ⟨a, rfl, h⟩
    rintro ⟨_, h, hf⟩
    cases h
    exact hf

theorem require_ok [Decidable c] {u : Unit} : require c e = .ok u ↔ c := by
  unfold require
  split <;> simp [*]

theorem require_bind_ok [Decidable c] {f : Unit → Except ε β} :
    (require c e >>= f) = .ok b ↔ c ∧ f () = .ok b := by
  rw [bind_ok]
  constructor
  · rintro ⟨_, hc, hf⟩
    exact ⟨require_ok.mp hc, hf⟩
  · rintro ⟨hc, hf⟩
    exact ⟨(), require_ok.mpr hc, hf⟩

theorem of_require [Decidable c] {f : Unit → Except ε β} (h : (require c e >>= f) = .ok b) :
    f () = .ok b :=
  (require_bind_ok.mp h).2

theorem orRevert_ok : orRevert o e = .ok a ↔ o = some a := by cases o <;> simp [orRevert]

theorem orRevert_bind_ok : (orRevert o e >>= f) = .ok b ↔ ∃ a, o = some a ∧ f a = .ok b := by
  simp only [bind_ok, orRevert_ok]

@[simp] theorem orRevert_some_bind (a : α) (e : ε) (f : α → Except ε β) :
    (orRevert (some a) e >>= f) = f a := rfl

/-! ## Operations that do not revert -/

/-- The operation has a result. -/
def Succeeds (x : Except ε α) : Prop := ∃ a, x = .ok a

namespace Succeeds

variable {x : Except ε α} {f : α → Except ε β} {a : α}

theorem ok (a : α) : Succeeds (.ok a : Except ε α) := ⟨a, rfl⟩

theorem bind (hx : x = .ok a) (h : Succeeds (f a)) : Succeeds (x >>= f) := by
  obtain ⟨b, hb⟩ := h
  exact ⟨b, bind_ok.mpr ⟨a, hx, hb⟩⟩

variable {e : ε}

theorem require [Decidable c] {f : Unit → Except ε β} (hc : c) (h : Succeeds (f ())) :
    Succeeds (Lib.require c e >>= f) :=
  bind (require_ok.mpr hc) h

theorem orRevert (ho : o = some a) (h : Succeeds (f a)) : Succeeds (Lib.orRevert o e >>= f) :=
  bind (orRevert_ok.mpr ho) h

end Succeeds

/-! ## Loops -/

theorem foldlM_invariant {f : β → α → Except ε β} {I : List α → β → Prop} {l : List α} {s s' : β}
    (h : l.foldlM f s = .ok s') (hstart : I [] s)
    (hstep : ∀ done a rest t t', l = done ++ a :: rest → I done t → f t a = .ok t' →
      I (done ++ [a]) t') : I l s' := by
  -- generalise the start of the loop to any split of the list
  suffices hsplit : ∀ rest done t, l = done ++ rest → I done t → rest.foldlM f t = .ok s' →
      I l s' from hsplit l [] s rfl hstart h
  intro rest
  induction rest with
  | nil =>
    intro done t hl hI hrun
    cases hrun
    rw [hl, List.append_nil]
    exact hI
  | cons a rest ih =>
    intro done t hl hI hrun
    rw [List.foldlM_cons] at hrun
    obtain ⟨t', hone, hrest⟩ := bind_ok.mp hrun
    refine ih (done ++ [a]) t' ?_ (hstep done a rest t t' hl hI hone) hrest
    rw [hl, List.append_assoc, List.singleton_append]

theorem toOption_eq_some : x.toOption = some a ↔ x = .ok a := by cases x <;> simp [Except.toOption]

end HyperPax.Lib
