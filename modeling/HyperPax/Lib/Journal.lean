/-
  Lib/Journal.lean --- undo logs.

  A journal lists entries, newest first, each of which says how to undo one change of a
  state.  Undoing is not expected to give back the very state there was before: caches
  filled on the way may stay.  So everything is relative to a relation of states that
  undoing respects.

      unwind     undo a list of entries
      Layered    a property of a state and its journal, of the state with the newest
                 entry undone and the rest of the journal, and so on to the oldest

  A layered property is what survives a partial unwinding, whatever its depth.
-/
import Mathlib.Data.List.Basic

set_option autoImplicit false

namespace HyperPax.Lib

variable {S E : Type} (undo : S → E → S) {R : S → S → Prop} {s t : S}

/-- Undo the entries, newest first. -/
def unwind (s : S) (es : List E) : S := es.foldl undo s

@[simp] theorem unwind_nil (s : S) : unwind undo s [] = s := rfl

@[simp] theorem unwind_cons (s : S) (e : E) (es : List E) :
    unwind undo s (e :: es) = unwind undo (undo s e) es := rfl

theorem unwind_append (s : S) (es es' : List E) :
    unwind undo s (es ++ es') = unwind undo (unwind undo s es) es' :=
  List.foldl_append

/-- Undoing an entry keeps related states related. -/
def Respects (R : S → S → Prop) : Prop :=
  ∀ s t e, R s t → R (undo s e) (undo t e)

variable {undo}

theorem Respects.unwind (h : Respects undo R) (hst : R s t) (es : List E) :
    R (Lib.unwind undo s es) (Lib.unwind undo t es) := by
  induction es generalizing s t with
  | nil => exact hst
  | cons e _ ih => exact ih (h s t e hst)

theorem Respects.restores_trans (h : Respects undo R) (htrans : ∀ s t u, R s t → R t u → R s u)
    {u : S} {es es' : List E} (hst : R s (Lib.unwind undo t es))
    (htu : R t (Lib.unwind undo u es')) : R s (Lib.unwind undo u (es' ++ es)) := by
  rw [unwind_append]
  exact htrans _ _ _ hst (h.unwind htu es)

variable (undo) in
/-- The property holds now, and again after each undoing. -/
def Layered (P : S → List E → Prop) : S → List E → Prop
  | s, [] => P s []
  | s, e :: es => P s (e :: es) ∧ Layered P (undo s e) es

namespace Layered

variable {P : S → List E → Prop} {s : S} {es : List E}

theorem head (h : Layered undo P s es) : P s es := by
  cases es with
  | nil => exact h
  | cons => exact h.1

theorem unwind {es' : List E} (h : Layered undo P s (es' ++ es)) :
    Layered undo P (Lib.unwind undo s es') es := by
  induction es' generalizing s with
  | nil => exact h
  | cons _ _ ih => exact ih h.2

theorem map {undo' : S → E → S} {P' : S → List E → Prop} (hP : ∀ s t es, R s t → P s es → P' t es)
    (hundo : ∀ s t e es, R s t → P s (e :: es) → R (undo s e) (undo' t e)) (hst : R s t)
    (h : Layered undo P s es) : Layered undo' P' t es := by
  induction es generalizing s t with
  | nil => exact hP s t [] hst h
  | cons e es ih => exact ⟨hP s t _ hst h.1, ih (hundo s t e es hst h.1) h.2⟩

theorem of_head (hbelow : ∀ t es', es'.length < es.length → P t es') (h : P s es) :
    Layered undo P s es := by
  have hvoid : ∀ (n : Nat) (es' : List E) (t : S), es'.length ≤ n → n < es.length →
      Layered undo P t es' := by
    intro _ es' t hle hlt
    induction es' generalizing t with
    | nil => exact hbelow t [] (Nat.lt_of_le_of_lt hle hlt)
    | cons _ _ ih => exact ⟨hbelow t _ (Nat.lt_of_le_of_lt hle hlt), ih _ (Nat.le_of_succ_le hle)⟩
  cases es with
  | nil => exact h
  | cons _ es => exact ⟨h, hvoid es.length es _ (Nat.le_refl _) (Nat.lt_succ_self _)⟩

end Layered

end HyperPax.Lib
