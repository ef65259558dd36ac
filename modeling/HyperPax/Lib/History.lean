/-
  Lib/History.lean --- lists that grow at their end.

  A history is a list of events, oldest first.  `Chronological P H` says that
  every event of `H` stands in the relation `P` to the events before it; it is
  extended one event at a time.  `Grown P l l'` says that one event with `P` has been
  added to `l`, or none.
-/
import Mathlib

set_option autoImplicit false

namespace HyperPax.Lib

open List

variable {E : Type}

/-- Every event of the history satisfies `P` together with its past. -/
def Chronological (P : List E → E → Prop) (H : List E) : Prop :=
  ∀ (pre : List E) (e : E) (post : List E), H = pre ++ e :: post → P pre e

namespace Chronological

variable {P : List E → E → Prop} {H : List E} {e : E}

theorem nil : Chronological P [] := by
  intro _ _ _ h
  simp at h

theorem append (h : Chronological P H) (he : P H e) : Chronological P (H ++ [e]) := by
  intro pre e' post heq
  -- the event is the new one, or it lies in the old history
  rcases eq_nil_or_concat post with rfl | ⟨post', _, rfl⟩
  · obtain ⟨rfl, hlast⟩ := append_inj' heq rfl
    rw [(List.cons.inj hlast).1] at he
    exact he
  · rw [concat_eq_append, ← cons_append, ← append_assoc] at heq
    exact h pre e' post' (append_inj' heq rfl).1

theorem of_append {es : List E} (h : Chronological P (H ++ es)) : Chronological P H := by
  intro pre e post heq
  refine h pre e (post ++ es) ?_
  rw [heq, append_assoc, cons_append]

theorem last (h : Chronological P (H ++ [e])) : P H e :=
  h H e [] rfl

end Chronological

/-- At most one event has been added, and it satisfies `P`. -/
def Grown (P : E → Prop) (l l' : List E) : Prop :=
  l' = l ∨ ∃ e, P e ∧ l' = l ++ [e]

namespace Grown

variable {P : E → Prop} {l l' : List E}

theorem mem {e : E} (h : Grown P l l') (he : e ∈ l') : e ∈ l ∨ P e := by
  rcases h with rfl | ⟨_, hadded, rfl⟩
  · exact .inl he
  cases mem_append.mp he with
  | inl hold => exact .inl hold
  | inr hlast =>
    rw [mem_singleton.mp hlast]
    exact .inr hadded

theorem nodup_map {K : Type} {f : E → K} (h : Grown P l l') (hl : (l.map f).Nodup)
    (hnew : ∀ e, P e → f e ∉ l.map f) : (l'.map f).Nodup := by
  rcases h with rfl | ⟨added, hadded, rfl⟩
  · exact hl
  rw [map_append, map_singleton]
  refine nodup_append.mpr ⟨hl, nodup_singleton _, ?_⟩
  rintro _ hk _ hk' rfl
  exact hnew added hadded (mem_singleton.mp hk' ▸ hk)

end Grown

end HyperPax.Lib
