/-
  Lib/Machine.lean --- computations that return, fail or panic, and loops of them.

  A computation over byte slices ends in one of three ways: with a value, with an error it
  returns, or in a run-time panic.  The third is an outcome of its own: an access outside a
  slice is not an error the caller sees.

  A loop runs its body while a condition holds.  Its states are related by `Reaches`; how
  a loop ends is how it ends from any state it comes to.  A loop whose body decreases a
  measure ends, and `runLoop` is then its outcome.
-/
import HyperPax.Lib.Word

set_option autoImplicit false

namespace HyperPax.Lib

/-! ## Outcomes -/

/-- Run-time panics. -/
inductive Panic where
  /-- `data[i]` with `i` out of range -/
  | index (i : Int)
  /-- `data[lo:hi]` out of range -/
  | slice (lo hi : Int)
  /-- `make([]byte, length)` with a length that is no `int` -/
  | make (length : Nat)
deriving DecidableEq

/-- How a computation ends. -/
inductive Outcome (ε α : Type) where
  | ok (a : α)
  | error (e : ε)
  | panic (p : Panic)
deriving DecidableEq

namespace Outcome

variable {ε ε' α β : Type} {x : Outcome ε α} {p : Panic} {f : ε → ε'} {a : α}

protected def bind (x : Outcome ε α) (f : α → Outcome ε β) : Outcome ε β :=
  match x with
  | .ok a => f a
  | .error e => .error e
  | .panic p => .panic p

instance : Monad (Outcome ε) where
  pure := .ok
  bind := .bind

/-- Rename the error. -/
def mapError (f : ε → ε') : Outcome ε α → Outcome ε' α
  | .ok a => .ok a
  | .error e => .error (f e)
  | .panic p => .panic p

/-- An error value as an outcome. -/
def ofExcept (f : ε → ε') : Except ε α → Outcome ε' α
  | .ok a => .ok a
  | .error e => .error (f e)

/-- No panic. -/
def Returns (x : Outcome ε α) : Prop := (∃ a, x = .ok a) ∨ ∃ e, x = .error e

@[simp] theorem pure_eq (a : α) : (pure a : Outcome ε α) = .ok a := rfl

@[simp] theorem ok_bind (a : α) (f : α → Outcome ε β) : (.ok a >>= f) = f a := rfl

@[simp] theorem error_bind (e : ε) (f : α → Outcome ε β) :
    ((.error e : Outcome ε α) >>= f) = .error e := rfl

@[simp] theorem panic_bind (p : Panic) (f : α → Outcome ε β) :
    ((.panic p : Outcome ε α) >>= f) = .panic p := rfl

theorem bind_assoc {γ : Type} (x : Outcome ε α) (f : α → Outcome ε β) (g : β → Outcome ε γ) :
    ((x >>= f) >>= g) = x >>= fun a => f a >>= g := by
  cases x with
  | ok => rfl
  | error => rfl
  | panic => rfl

theorem bind_ok {f : α → Outcome ε β} {b : β} :
    x >>= f = .ok b ↔ ∃ a, x = .ok a ∧ f a = .ok b := by
  cases x with
  | ok => simp
  | error => simp
  | panic => simp

theorem bind_eq_panic {f : α → Outcome ε β} :
    x >>= f = .panic p ↔ x = .panic p ∨ ∃ a, x = .ok a ∧ f a = .panic p := by
  cases x with
  | ok => simp
  | error => simp
  | panic => simp

theorem bind_ok_ne_panic (hx : ∀ p, x ≠ .panic p) (f : α → β) (p : Panic) :
    (x >>= fun a => .ok (f a)) ≠ .panic p := by
  cases x with
  | ok | error => exact nofun
  | panic q => exact absurd rfl (hx q)

theorem mapError_eq_ok : x.mapError f = .ok a ↔ x = .ok a := by cases x <;> simp [mapError]

theorem mapError_eq_panic : x.mapError f = .panic p ↔ x = .panic p := by cases x <;> simp [mapError]

theorem ofExcept_eq_ok {x : Except ε α} : ofExcept f x = .ok a ↔ x = .ok a := by
  cases x <;> simp [ofExcept]

theorem ofExcept_ne_panic {x : Except ε α} : ofExcept f x ≠ .panic p := by
  cases x <;> simp [ofExcept]

theorem returns_iff : x.Returns ↔ ∀ p, x ≠ .panic p := by
  cases x with
  | ok | error | panic => simp [Returns]

end Outcome

/-! ## Slices and signed indices -/

/-- The value of a 64-bit `int` with the low bits of `z`. -/
def int64 (z : Int) : Int := (.wrap z : Sint 64).val

theorem int64_of_lt {z : Int} (h₀ : 0 ≤ z) (h : z < 2 ^ 63) : int64 z = z :=
  Sint.wrap_of_fits (by decide) ⟨by omega, by norm_num; omega⟩

theorem int64_add (i length : Int) : int64 (i + int64 length) = (i + length).bmod (2 ^ 64) := by
  exact Int.add_bmod_bmod

variable {length : Nat} {i : Int}

theorem int64_add_of_lt {i : Nat} (h : i + length < 2 ^ 63) :
    int64 ((i : Int) + int64 length) = (i + length : Nat) := by
  have hlength : int64 length = length := int64_of_lt (by omega) (by omega)
  rw [hlength, int64_of_lt (by omega) (by omega)]
  rfl

section

variable (h₀ : 0 ≤ i) (hi : i < 2 ^ 63) (hlength : length < 2 ^ 64)

include h₀ hi hlength

theorem int64_add_lt (h : 2 ^ 63 ≤ i + length) : int64 (i + int64 length) < i := by
  rw [int64_add, Int.bmod_def]
  split <;> omega

theorem int64_add_wrap (h : 2 ^ 64 ≤ i + length) :
    int64 (i + int64 length) = i + length - 2 ^ 64 := by
  rw [int64_add, Int.bmod_def]
  split <;> omega

end

theorem int64_add_neg (hi : i < 2 ^ 63) (hlength : length < 2 ^ 63) (h : 2 ^ 63 ≤ i + length) :
    int64 (i + int64 length) < 0 := by
  rw [int64_add, Int.bmod_def]
  split <;> omega

section

variable {ε : Type} {data : List UInt8} {lo : Nat}

/-- `data[lo:hi]`. -/
def sliceOf (data : List UInt8) (lo hi : Int) : Outcome ε (List UInt8) :=
  if 0 ≤ lo ∧ lo ≤ hi ∧ hi ≤ data.length then .ok ((data.drop lo.toNat).take (hi - lo).toNat)
  else .panic (.slice lo hi)

/-- `data[lo:]`. -/
def sliceFrom (data : List UInt8) (lo : Int) : Outcome ε (List UInt8) :=
  sliceOf data lo data.length

theorem sliceOf_nat (h : lo + length ≤ data.length) :
    (sliceOf data lo (lo + length : Nat) : Outcome ε (List UInt8)) =
      .ok ((data.drop lo).take length) := by
  rw [sliceOf, if_pos ⟨by omega, by omega, by omega⟩, Int.toNat_natCast]
  have hlength : (((lo + length : Nat) : Int) - lo).toNat = length := by omega
  rw [hlength]

theorem sliceOf_of_lt {lo hi : Int} (h : hi < lo) :
    (sliceOf data lo hi : Outcome ε (List UInt8)) = .panic (.slice lo hi) :=
  if_neg fun hin => absurd hin.2.1 (not_le.mpr h)

theorem sliceFrom_nat (h : lo ≤ data.length) :
    (sliceFrom data lo : Outcome ε (List UInt8)) = .ok (data.drop lo) := by
  have hlength : data.length = lo + (data.drop lo).length := by
    rw [List.length_drop]
    omega
  have hslice : (sliceOf data lo (lo + (data.drop lo).length : Nat) : Outcome ε (List UInt8)) =
      .ok ((data.drop lo).take (data.drop lo).length) := sliceOf_nat (by omega)
  rw [← hlength, List.take_length] at hslice
  exact hslice

end

/-! ## Loops -/

section

variable {ε γ : Type}

/-- The states that a loop with this condition and this body comes to. -/
inductive Reaches (more : γ → Prop) (body : γ → Outcome ε γ) (c : γ) : γ → Prop where
  | refl : Reaches more body c c
  | tail {d e : γ} : Reaches more body c d → more d → body d = .ok e → Reaches more body c e

namespace Reaches

variable {more : γ → Prop} {body : γ → Outcome ε γ} {c d e : γ}

theorem single (hmore : more c) (h : body c = .ok d) : Reaches more body c d :=
  .tail .refl hmore h

theorem trans (h₁ : Reaches more body c d) (h₂ : Reaches more body d e) :
    Reaches more body c e := by
  induction h₂ with
  | refl => exact h₁
  | tail _ hmore hbody ih => exact .tail ih hmore hbody

theorem invariant {P : γ → Prop} (h : Reaches more body c d) (hc : P c)
    (hstep : ∀ a b, P a → more a → body a = .ok b → P b) : P d := by
  induction h with
  | refl => exact hc
  | tail _ hmore hbody ih => exact hstep _ _ ih hmore hbody

end Reaches

end

section

variable {ε γ : Type} (more : γ → Prop) [DecidablePred more] (body : γ → Outcome ε γ)

/-- `for more(c) { body(c) }`; `none` when the given number of rounds is not enough. -/
def loop : Nat → γ → Option (Outcome ε γ)
  | 0, _ => none
  | fuel + 1, c =>
    if more c then
      match body c with
      | .ok d => loop fuel d
      | .error e => some (.error e)
      | .panic p => some (.panic p)
    else some (.ok c)

variable {more body} {c d : γ} {fuel fuel' : Nat} {r r' : Outcome ε γ}

theorem loop_of_not (h : ¬ more c) : loop more body (fuel + 1) c = some (.ok c) := by
  rw [loop, if_neg h]

theorem loop_of_ok (h : more c) (hbody : body c = .ok d) :
    loop more body (fuel + 1) c = loop more body fuel d := by
  rw [loop, if_pos h, hbody]

theorem loop_of_error {err : ε} (h : more c) (hbody : body c = .error err) :
    loop more body (fuel + 1) c = some (.error err) := by
  rw [loop, if_pos h, hbody]

variable {p : Panic}

theorem loop_of_panic (h : more c) (hbody : body c = .panic p) :
    loop more body (fuel + 1) c = some (.panic p) := by
  rw [loop, if_pos h, hbody]

theorem loop_unique (h : loop more body fuel c = some r) (h' : loop more body fuel' c = some r') :
    r = r' := by
  induction fuel generalizing fuel' c with
  | zero => cases h
  | succ _ ih =>
    cases fuel' with
    | zero => cases h'
    | succ =>
      by_cases hmore : more c
      · cases hbody : body c with
        | ok =>
          rw [loop_of_ok hmore hbody] at h h'
          exact ih h h'
        | error =>
          rw [loop_of_error hmore hbody] at h h'
          exact Option.some.inj (h.symm.trans h')
        | panic =>
          rw [loop_of_panic hmore hbody] at h h'
          exact Option.some.inj (h.symm.trans h')
      · rw [loop_of_not hmore] at h h'
        exact Option.some.inj (h.symm.trans h')

namespace Reaches

theorem loop_of (h : Reaches more body c d) (hd : loop more body fuel d = some r) :
    ∃ fuel', loop more body fuel' c = some r := by
  induction h generalizing fuel with
  | refl => exact ⟨fuel, hd⟩
  | tail _ hmore hbody ih =>
    rw [← loop_of_ok hmore hbody] at hd
    exact ih hd

end Reaches

theorem reaches_of_loop_ok (h : loop more body fuel c = some (.ok d)) :
    Reaches more body c d ∧ ¬ more d := by
  induction fuel generalizing c with
  | zero => cases h
  | succ _ ih =>
    by_cases hmore : more c
    · cases hbody : body c with
      | ok =>
        rw [loop_of_ok hmore hbody] at h
        obtain ⟨hreach, hstop⟩ := ih h
        exact ⟨(Reaches.single hmore hbody).trans hreach, hstop⟩
      | error =>
        rw [loop_of_error hmore hbody] at h
        cases h
      | panic =>
        rw [loop_of_panic hmore hbody] at h
        cases h
    · rw [loop_of_not hmore] at h
      cases h
      exact ⟨.refl, hmore⟩

theorem reaches_of_loop_panic (h : loop more body fuel c = some (.panic p)) :
    ∃ d, Reaches more body c d ∧ more d ∧ body d = .panic p := by
  induction fuel generalizing c with
  | zero => cases h
  | succ _ ih =>
    by_cases hmore : more c
    · cases hbody : body c with
      | ok =>
        rw [loop_of_ok hmore hbody] at h
        obtain ⟨d, hreach, hpanic⟩ := ih h
        exact ⟨d, (Reaches.single hmore hbody).trans hreach, hpanic⟩
      | error =>
        rw [loop_of_error hmore hbody] at h
        cases h
      | panic =>
        rw [loop_of_panic hmore hbody] at h
        cases h
        exact ⟨c, .refl, hmore, hbody⟩
    · rw [loop_of_not hmore] at h
      cases h

theorem loop_returns {P : γ → Prop} {measure : γ → Nat}
    (hstep : ∀ a b, P a → more a → body a = .ok b → P b ∧ measure b < measure a) (hc : P c) :
    ∃ r, loop more body (measure c + 1) c = some r := by
  -- with any number of rounds above the measure
  suffices hany : ∀ fuel, measure c < fuel → ∃ r, loop more body fuel c = some r from
    hany _ (Nat.lt_succ_self _)
  intro fuel
  induction fuel generalizing c with
  | zero => exact fun h => absurd h (Nat.not_lt_zero _)
  | succ _ ih =>
    intro _
    by_cases hmore : more c
    · cases hbody : body c with
      | ok d =>
        obtain ⟨hd, _⟩ := hstep c d hc hmore hbody
        rw [loop_of_ok hmore hbody]
        exact ih hd (by omega)
      | error => exact ⟨_, loop_of_error hmore hbody⟩
      | panic => exact ⟨_, loop_of_panic hmore hbody⟩
    · exact ⟨_, loop_of_not hmore⟩

end

variable {ε γ : Type}

theorem isSome_loop {more : γ → Prop} [DecidablePred more] {body : γ → Outcome ε γ}
    {measure : γ → Nat} (hstep : ∀ a b, more a → body a = .ok b → measure b < measure a) (c : γ) :
    (loop more body (measure c + 1) c).isSome := by
  have hend : ∃ r, loop more body (measure c + 1) c = some r :=
    loop_returns (P := fun _ => True)
      (fun a b _ hmore hbody => ⟨trivial, hstep a b hmore hbody⟩) trivial
  obtain ⟨_, hr⟩ := hend
  rw [hr]
  rfl

/-- The outcome of a loop whose body decreases a measure. -/
def runLoop (more : γ → Prop) [DecidablePred more] (body : γ → Outcome ε γ) (measure : γ → Nat)
    (hstep : ∀ a b, more a → body a = .ok b → measure b < measure a) (c : γ) : Outcome ε γ :=
  (loop more body (measure c + 1) c).get (isSome_loop hstep c)

variable {more : γ → Prop} [DecidablePred more] {body : γ → Outcome ε γ} {measure : γ → Nat}
  {hstep : ∀ a b, more a → body a = .ok b → measure b < measure a} {c : γ} {r : Outcome ε γ}

theorem runLoop_eq_iff :
    runLoop more body measure hstep c = r ↔ ∃ fuel, loop more body fuel c = some r := by
  have hrun : loop more body (measure c + 1) c = some (runLoop more body measure hstep c) :=
    (Option.some_get _).symm
  constructor
  · rintro rfl
    exact ⟨_, hrun⟩
  · rintro ⟨_, h⟩
    exact loop_unique hrun h

end HyperPax.Lib
