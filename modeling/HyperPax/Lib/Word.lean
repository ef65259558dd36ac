/-
  Lib/Word.lean --- fixed-width integers with checked arithmetic.

  A contract language with checked arithmetic has, for every width, unsigned and
  two's complement integers whose operations revert outside the range, and casts
  between the types that keep the bits and so reduce the value modulo `2^w`:

      Uint w    0 .. 2^w - 1              Sint w    -2^(w-1) .. 2^(w-1) - 1
      add?  sub?  mul?  neg?   checked: `none` outside the range
      truncate  wrap           the casts

  The range is part of the type.  A checked operation is determined by one
  equation on the values (`check_eq_some`), which is all the proofs use of it.
-/
import Mathlib

set_option autoImplicit false

namespace HyperPax.Lib

/-- Unsigned integers of `w` bits. -/
structure Uint (w : Nat) where
  val : Nat
  lt_two_pow : val < 2 ^ w
deriving DecidableEq

/-- Two's complement integers of `w` bits. -/
structure Sint (w : Nat) where
  val : Int
  neg_two_pow_le : -(2 : Int) ^ (w - 1) ≤ val
  lt_two_pow : val < (2 : Int) ^ (w - 1)
deriving DecidableEq

namespace Uint

variable {w n : Nat} {a b c : Uint w}

@[ext] theorem ext (h : a.val = b.val) : a = b := by
  cases a
  cases b
  simpa using h

def zero : Uint w := ⟨0, Nat.two_pow_pos w⟩

instance : Inhabited (Uint w) := ⟨zero⟩

@[simp] theorem val_zero : (zero : Uint w).val = 0 := rfl

/-- The number, when it fits. -/
def check (n : Nat) : Option (Uint w) :=
  if h : n < 2 ^ w then some ⟨n, h⟩ else none

/-- The low `w` bits. -/
def truncate (n : Nat) : Uint w := ⟨n % 2 ^ w, Nat.mod_lt _ (Nat.two_pow_pos w)⟩

def add? (a b : Uint w) : Option (Uint w) := check (a.val + b.val)

def sub? (a b : Uint w) : Option (Uint w) :=
  if b.val ≤ a.val then check (a.val - b.val) else none

def mul? (a b : Uint w) : Option (Uint w) := check (a.val * b.val)

theorem check_eq_some : check n = some a ↔ a.val = n := by
  unfold check
  split
  · rw [Option.some.injEq]
    constructor
    · rintro rfl
      rfl
    · rintro rfl
      rfl
  · rename_i h
    constructor
    · intro h'
      cases h'
    · rintro rfl
      exact absurd a.lt_two_pow h

theorem check_of_lt (h : n < 2 ^ w) : (check n : Option (Uint w)) = some ⟨n, h⟩ :=
  check_eq_some.mpr rfl

theorem add?_eq_some : a.add? b = some c ↔ c.val = a.val + b.val :=
  check_eq_some

theorem sub?_eq_some : a.sub? b = some c ↔ c.val + b.val = a.val := by
  unfold sub?
  split
  · rw [check_eq_some]
    omega
  rename_i h
  constructor
  · intro h'
    cases h'
  · intro _
    omega

theorem mul?_eq_some : a.mul? b = some c ↔ c.val = a.val * b.val :=
  check_eq_some

theorem truncate_of_lt (h : n < 2 ^ w) : (truncate n : Uint w).val = n :=
  Nat.mod_eq_of_lt h

end Uint

namespace Sint

variable {w : Nat} {a b c : Sint w} {z : Int}

@[ext] theorem ext (h : a.val = b.val) : a = b := by
  cases a
  cases b
  simpa using h

/-- The range of the type. -/
def Fits (w : Nat) (z : Int) : Prop := -(2 : Int) ^ (w - 1) ≤ z ∧ z < (2 : Int) ^ (w - 1)
deriving Decidable

theorem fits (a : Sint w) : Fits w a.val := ⟨a.neg_two_pow_le, a.lt_two_pow⟩

theorem fits_zero : Fits w 0 := by
  have h : (0 : Int) < 2 ^ (w - 1) := by positivity
  exact ⟨by omega, h⟩

def zero : Sint w := ⟨0, fits_zero.1, fits_zero.2⟩

instance : Inhabited (Sint w) := ⟨zero⟩

@[simp] theorem val_zero : (zero : Sint w).val = 0 := rfl

/-- The number, when it fits. -/
def check (z : Int) : Option (Sint w) :=
  if h : Fits w z then some ⟨z, h.1, h.2⟩ else none

theorem two_pow_half : (((2 ^ w : Nat) : Int) + 1) / 2 ≤ 2 ^ (w - 1) ∧
    -(2 : Int) ^ (w - 1) ≤ -(((2 ^ w : Nat) : Int) / 2) := by
  cases w with
  | zero => decide
  | succ =>
    rw [Nat.add_sub_cancel, pow_succ]
    push_cast
    omega

theorem fits_bmod (z : Int) : Fits w (z.bmod (2 ^ w)) := by
  have hpos : 0 < 2 ^ w := Nat.two_pow_pos w
  obtain ⟨hupper, hlower⟩ := two_pow_half (w := w)
  exact ⟨hlower.trans (Int.le_bmod hpos), (Int.bmod_lt hpos).trans_le hupper⟩

/-- The value of the low `w` bits of `z`. -/
def wrap (z : Int) : Sint w := ⟨z.bmod (2 ^ w), (fits_bmod z).1, (fits_bmod z).2⟩

def add? (a b : Sint w) : Option (Sint w) := check (a.val + b.val)

def sub? (a b : Sint w) : Option (Sint w) := check (a.val - b.val)

def mul? (a b : Sint w) : Option (Sint w) := check (a.val * b.val)

def neg? (a : Sint w) : Option (Sint w) := check (-a.val)

theorem check_eq_some : check z = some a ↔ a.val = z := by
  unfold check
  split
  · rw [Option.some.injEq]
    constructor
    · rintro rfl
      rfl
    · rintro rfl
      rfl
  · rename_i h
    constructor
    · intro h'
      cases h'
    · rintro rfl
      exact absurd a.fits h

theorem check_of_fits (h : Fits w z) : (check z : Option (Sint w)) = some ⟨z, h.1, h.2⟩ :=
  check_eq_some.mpr rfl

theorem add?_eq_some : a.add? b = some c ↔ c.val = a.val + b.val :=
  check_eq_some

theorem sub?_eq_some : a.sub? b = some c ↔ c.val = a.val - b.val :=
  check_eq_some

theorem mul?_eq_some : a.mul? b = some c ↔ c.val = a.val * b.val :=
  check_eq_some

theorem neg?_eq_some : a.neg? = some c ↔ c.val = -a.val :=
  check_eq_some

theorem wrap_of_fits (hw : 0 < w) (h : Fits w z) : (wrap z : Sint w).val = z := by
  obtain ⟨n, rfl⟩ : ∃ n, w = n + 1 := ⟨w - 1, by omega⟩
  obtain ⟨hlower, hupper⟩ := h
  rw [Nat.add_sub_cancel] at hlower hupper
  refine Int.bmod_eq_of_le ?_ ?_
  · rw [pow_succ]
    push_cast
    omega
  · rw [pow_succ]
    push_cast
    omega

theorem wrap_sub (z : Int) : (wrap (z - ((2 ^ w : Nat) : Int)) : Sint w) = wrap z :=
  ext (Int.sub_bmod_right z (2 ^ w))

end Sint

end HyperPax.Lib
