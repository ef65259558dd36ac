/-
  Lib/Mapping.lean --- nested mappings of contract storage.

  `mapping(A => mapping(B => V))` is a total function of two keys whose unwritten
  entries hold the zero value.  A write changes one entry; a total over the first key
  moves by the difference at that entry.
-/
import Mathlib

set_option autoImplicit false

namespace HyperPax.Lib

variable {A B V : Type} [DecidableEq A] [DecidableEq B]

/-- `m[a][b] = v`. -/
def write (m : A → B → V) (a : A) (b : B) (v : V) : A → B → V :=
  fun x y => if x = a ∧ y = b then v else m x y

variable (m : A → B → V) (a : A) (b : B) (v : V) {d : Int}

theorem write_apply (x : A) (y : B) : write m a b v x y = if x = a ∧ y = b then v else m x y := rfl

@[simp] theorem write_same : write m a b v a b = v := by rw [write_apply, if_pos ⟨rfl, rfl⟩]

theorem write_of_ne {a x : A} {b y : B} (h : ¬ (x = a ∧ y = b)) : write m a b v x y = m x y := by
  rw [write_apply, if_neg h]

theorem write_shift (read : V → Int) (m : A → B → V) {a : A} {b : B} {v : V}
    (h : read v = read (m a b) + d) (x : A) (y : B) :
    read (write m a b v x y) = read (m x y) + if x = a ∧ y = b then d else 0 := by
  rw [write_apply]
  by_cases hxy : x = a ∧ y = b
  · obtain ⟨rfl, rfl⟩ := hxy
    simpa using h
  · simp [hxy]

/-! ## Totals -/

theorem finsum_point (p : Prop) [Decidable p] (d : Int) :
    ∑ᶠ x, (if x = a ∧ p then d else 0) = if p then d else 0 := by
  rw [finsum_eq_single _ a (fun x hx => if_neg fun h => hx h.1)]
  simp only [true_and]

theorem finsum_shift_at [Finite A] {f g : A → B → Int} {a : A} {b : B}
    (h : ∀ x y, g x y = f x y + if x = a ∧ y = b then d else 0) (y : B) :
    ∑ᶠ x, g x y = ∑ᶠ x, f x y + if y = b then d else 0 := by
  rw [finsum_congr fun x => h x y, finsum_add_distrib (Set.toFinite _) (Set.toFinite _),
    finsum_point]

end HyperPax.Lib
