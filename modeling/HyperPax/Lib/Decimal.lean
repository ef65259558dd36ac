/-
  Lib/Decimal.lean --- decimal text of integers, and reading it back.

  Amounts are persisted as decimal strings.  `formatInt` is the base-10 text of
  an integer and `parseInt` reads one: an optional sign followed by one or more
  digits, nothing else (no underscores, no blanks).  The facts the stores rely on
  are the round trips `parseInt_formatInt`, `parseNonneg_formatInt` and, for texts
  carried as byte strings, `parseInt_ofBytes_decimalBytes`.
-/
import Mathlib

set_option autoImplicit false

namespace HyperPax.Lib

/-- The value of a non-empty string of decimal digits. -/
def parseDigits (ds : List Char) : Option Nat :=
  if ds ≠ [] ∧ ds.all Char.isDigit then some (Nat.ofDigitChars 10 ds 0) else none

/-- Read a base-10 integer: `[+-]? [0-9]+`. -/
def parseInt (s : String) : Option Int :=
  match s.toList with
  | '-' :: ds => (parseDigits ds).map fun n => -(n : Int)
  | '+' :: ds => (parseDigits ds).map fun n => (n : Int)
  | ds => (parseDigits ds).map fun n => (n : Int)

/-- The base-10 text of an integer. -/
def formatInt : Int → String
  | .ofNat n => n.repr
  | .negSucc n => "-" ++ (n + 1).repr

theorem parseDigits_toDigits (n : Nat) : parseDigits (Nat.toDigits 10 n) = some n := by
  have hall : (Nat.toDigits 10 n).all Char.isDigit := by
    rw [List.all_eq_true]
    intro _ hc
    exact Nat.isDigit_of_mem_toDigits (by decide) (by decide) hc
  rw [parseDigits, if_pos ⟨Nat.toDigits_ne_nil, hall⟩, Nat.ofDigitChars_ten_toDigits]

variable {c : Char}

theorem head_toDigits_ne {n : Nat} {ds : List Char} (h : Nat.toDigits 10 n = c :: ds)
    (hc : c.isDigit = false) : False := by
  have hmem : c ∈ Nat.toDigits 10 n := by
    rw [h]
    exact List.mem_cons_self
  have hdigit : c.isDigit := Nat.isDigit_of_mem_toDigits (by decide) (by decide) hmem
  rw [hdigit] at hc
  exact absurd hc (by decide)

theorem parseInt_repr (n : Nat) : parseInt n.repr = some (n : Int) := by
  unfold parseInt
  rw [Nat.toList_repr]
  split
  · rename_i ds hds
    exact (head_toDigits_ne hds (by decide)).elim
  · rename_i ds hds
    exact (head_toDigits_ne hds (by decide)).elim
  · rw [parseDigits_toDigits]
    rfl

@[simp] theorem parseInt_formatInt (i : Int) : parseInt (formatInt i) = some i := by
  cases i with
  | ofNat n => exact parseInt_repr n
  | negSucc n =>
    have htext : ("-" ++ (n + 1).repr).toList = '-' :: Nat.toDigits 10 (n + 1) := by
      rw [String.toList_append, Nat.toList_repr]
      rfl
    simp only [parseInt, formatInt, htext, parseDigits_toDigits]
    rfl

/-! ## Byte strings -/

/-- A byte string as a text, one character for each byte. -/
def textOfBytes (bs : List UInt8) : String := .ofList (bs.map fun b => .ofNat b.toNat)

/-- The base-10 text of an integer as a byte string. -/
def decimalBytes (i : Int) : List UInt8 := (formatInt i).toList.map fun c => .ofNat c.toNat

theorem toNat_lt_of_mem_formatInt {i : Int} (h : c ∈ (formatInt i).toList) : c.toNat < 128 := by
  have hdigits : ∀ n : Nat, c ∈ Nat.toDigits 10 n → c.toNat < 128 := by
    intro n hn
    have hdigit : c.isDigit := Nat.isDigit_of_mem_toDigits (by decide) (by decide) hn
    have hle : c.toNat ≤ 57 := by
      have hbounds := hdigit
      simp only [Char.isDigit, Bool.and_eq_true, decide_eq_true_eq] at hbounds
      exact hbounds.2
    omega
  cases i with
  | ofNat n =>
    rw [formatInt, Nat.toList_repr] at h
    exact hdigits n h
  | negSucc =>
    rw [formatInt, String.toList_append, Nat.toList_repr, List.mem_append] at h
    cases h with
    | inl h =>
      rw [show "-".toList = ['-'] from rfl, List.mem_singleton] at h
      rw [h]
      decide
    | inr h => exact hdigits _ h

@[simp] theorem parseInt_ofBytes_decimalBytes (i : Int) :
    parseInt (textOfBytes (decimalBytes i)) = some i := by
  have htext : textOfBytes (decimalBytes i) = formatInt i := by
    rw [textOfBytes, decimalBytes, List.map_map]
    have hid : (formatInt i).toList.map
        ((fun b : UInt8 => .ofNat b.toNat) ∘ fun c : Char => .ofNat c.toNat) =
        (formatInt i).toList.map id := by
      refine List.map_congr_left ?_
      intro _ hc
      have hlt := toNat_lt_of_mem_formatInt hc
      rw [Function.comp_apply, UInt8.toNat_ofNat', Nat.mod_eq_of_lt (by omega), Char.ofNat_toNat]
      rfl
    rw [hid, List.map_id, String.ofList_toList]
  rw [htext, parseInt_formatInt]

/-! ## Non-negative amounts -/

/-- Read a non-negative amount; malformed, empty or negative text is zero. -/
def parseNonneg (s : String) : Int :=
  if s = "" then 0
  else
    match parseInt s with
    | some v => if v < 0 then 0 else v
    | none => 0

theorem parseNonneg_nonneg (s : String) : 0 ≤ parseNonneg s := by
  unfold parseNonneg
  split
  · exact le_refl 0
  split
  · split <;> omega
  · exact le_refl 0

theorem parseNonneg_formatInt {d : Int} (h : 0 ≤ d) : parseNonneg (formatInt d) = d := by
  have hne : formatInt d ≠ "" := by
    intro hempty
    have hparse := parseInt_formatInt d
    have hnone : parseInt "" = none := rfl
    rw [hempty, hnone] at hparse
    exact absurd hparse (by simp)
  rw [parseNonneg, if_neg hne, parseInt_formatInt]
  simp only [ite_eq_right_iff]
  omega

end HyperPax.Lib
