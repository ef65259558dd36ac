/-
  Lib/Transition.lean --- labelled transition systems given by a step function.

  A system is a partial function `step : S → L → Option S`: in state `s` the
  label `l` is enabled when `step s l` is a state.  Two views of its executions
  are used throughout the development:

      runLabels   the executable one, on a list of labels
      Path        the logical one, guarded by a condition on each step taken

  A guard `ok s l` speaks about the state BEFORE the step and its label, so a
  theorem about `Path step ok` reads "in every run all of whose steps meet `ok`".
-/
import Mathlib

set_option autoImplicit false

namespace HyperPax.Lib

open Option

variable {S L : Type} (step : S → L → Option S)

/-- Execute a list of labels; `none` when one of them is not enabled. -/
def runLabels : S → List L → Option S
  | s, [] => some s
  | s, l :: ls => (step s l).bind fun s' => runLabels s' ls

/-- `t` is reached from `s` by steps that all meet the guard `ok`. -/
inductive Path (ok : S → L → Prop) (s : S) : S → Prop where
  | refl : Path ok s s
  | tail {t u : S} (l : L) : Path ok s t → ok t l → step t l = some u → Path ok s u

variable {step}

namespace Path

variable {ok : S → L → Prop} {s t u : S}

theorem single {l : L} (hok : ok s l) (h : step s l = some t) : Path step ok s t :=
  .tail l .refl hok h

theorem trans (h₁ : Path step ok s t) (h₂ : Path step ok t u) : Path step ok s u := by
  induction h₂ with
  | refl => exact h₁
  | tail l _ hok hstep ih => exact .tail l ih hok hstep

theorem mono {ok' : S → L → Prop} (himp : ∀ t l, ok t l → ok' t l) (h : Path step ok s t) :
    Path step ok' s t := by
  induction h with
  | refl => exact .refl
  | tail l _ hok hl ih => exact .tail l ih (himp _ l hok) hl

theorem invariant {I : S → Prop} (hstep : ∀ t l u, I t → ok t l → step t l = some u → I u)
    (hs : I s) (h : Path step ok s t) : I t := by
  induction h with
  | refl => exact hs
  | tail l _ hok hl ih => exact hstep _ l _ ih hok hl

end Path

/-- The system that takes a step only where the guard holds. -/
def guardedStep (step : S → L → Option S) (ok : S → L → Prop) [∀ s l, Decidable (ok s l)]
    (s : S) (l : L) : Option S :=
  if ok s l then step s l else none

theorem path_of_runLabels {ok : S → L → Prop} [∀ s l, Decidable (ok s l)] {s t : S} {ls : List L}
    (h : runLabels (guardedStep step ok) s ls = some t) : Path step ok s t := by
  induction ls generalizing s with
  | nil =>
    cases h
    exact .refl
  | cons _ _ ih =>
    obtain ⟨_, hl, hrest⟩ := bind_eq_some_iff.mp h
    unfold guardedStep at hl
    split at hl
    · rename_i hok
      exact (Path.single hok hl).trans (ih hrest)
    · cases hl

variable {ok : S → L → Prop} [∀ s l, Decidable (ok s l)] (s : S) (ls : List L)

theorem exists_path {P : S → Prop} [DecidablePred P]
    (h : (runLabels (guardedStep step ok) s ls).any (fun t => decide (P t))) :
    ∃ t, Path step ok s t ∧ P t := by
  obtain ⟨t, ht, hP⟩ := (any_eq_true _ _).mp h
  exact ⟨t, path_of_runLabels ht, of_decide_eq_true hP⟩

variable {P : S → S → Prop}

theorem exists_step_of_run {l : L} [∀ t u, Decidable (P t u)]
    (h : (runLabels (guardedStep step ok) s ls).any
      (fun t => (step t l).any fun u => decide (P t u))) :
    ∃ t u, Path step ok s t ∧ step t l = some u ∧ P t u := by
  obtain ⟨t, ht, hstep⟩ := (any_eq_true _ _).mp h
  obtain ⟨u, hu, hP⟩ := (any_eq_true _ _).mp hstep
  exact ⟨t, u, path_of_runLabels ht, hu, of_decide_eq_true hP⟩

theorem exists_paths_of_run {ok' : S → L → Prop} [∀ s l, Decidable (ok' s l)] (ls' : List L)
    [∀ t u, Decidable (P t u)] (h : (runLabels (guardedStep step ok) s ls).any (fun t =>
      (runLabels (guardedStep step ok') t ls').any fun u => decide (P t u))) :
    ∃ t u, Path step ok s t ∧ Path step ok' t u ∧ P t u := by
  obtain ⟨t, ht, hrest⟩ := (any_eq_true _ _).mp h
  obtain ⟨u, hu, hP⟩ := (any_eq_true _ _).mp hrest
  exact ⟨t, u, path_of_runLabels ht, path_of_runLabels hu, of_decide_eq_true hP⟩

end HyperPax.Lib
