/-
  Lib/Varint.lean --- numbers in groups of seven bits.

  A number is written in groups of seven bits, all but the last with the continuation bit
  `0x80`.  `varintBytes` has the lowest group first, as a reader expects it.  A writer that
  fills a buffer from its end and begins with the lowest group leaves them in reverse: then
  a group without the continuation bit comes first, and a reader takes it for the whole
  number.

  `readVarint` reads into a 64-bit word.  Whatever it reads took at least as many bytes as
  the shortest form of the number: that is what the counting arguments over decoders use.
-/
import Mathlib

set_option autoImplicit false

namespace HyperPax.Lib

open List UInt8

/-! ## Writing -/

/-- The groups, lowest first. -/
def varintBytes (v : Nat) : List UInt8 :=
  if 0x80 ≤ v then .ofNat (v % 128 + 128) :: varintBytes (v / 128) else [.ofNat v]
termination_by v
decreasing_by omega

/-- The number of groups. -/
def varintSize (v : Nat) : Nat :=
  if 0x80 ≤ v then varintSize (v / 128) + 1 else 1
termination_by v
decreasing_by omega

variable {v n : Nat}

theorem varintBytes_of_le (h : 0x80 ≤ v) :
    varintBytes v = .ofNat (v % 128 + 128) :: varintBytes (v / 128) := by
  rw [varintBytes, if_pos h]

theorem varintBytes_of_lt (h : v < 0x80) : varintBytes v = [.ofNat v] := by
  rw [varintBytes, if_neg (not_le.mpr h)]

theorem varintSize_of_le (h : 0x80 ≤ v) : varintSize v = varintSize (v / 128) + 1 := by
  rw [varintSize, if_pos h]

theorem varintSize_of_lt (h : v < 0x80) : varintSize v = 1 := by
  rw [varintSize, if_neg (not_le.mpr h)]

theorem varintSize_pos (v : Nat) : 0 < varintSize v := by
  by_cases h : 0x80 ≤ v
  · rw [varintSize_of_le h]
    exact Nat.succ_pos _
  · rw [varintSize_of_lt (not_le.mp h)]
    exact Nat.one_pos

@[simp] theorem length_varintBytes (v : Nat) : (varintBytes v).length = varintSize v := by
  induction v using Nat.strongRecOn with
  | ind v ih =>
    by_cases h : 0x80 ≤ v
    · rw [varintBytes_of_le h, varintSize_of_le h, length_cons, ih (v / 128) (by omega)]
    · rw [varintBytes_of_lt (not_le.mp h), varintSize_of_lt (not_le.mp h)]
      rfl

theorem varintSize_mono {w : Nat} (h : v ≤ w) : varintSize v ≤ varintSize w := by
  induction w using Nat.strongRecOn generalizing v with
  | ind w ih =>
    by_cases hv : 0x80 ≤ v
    · rw [varintSize_of_le hv, varintSize_of_le (hv.trans h)]
      have hdiv := ih (w / 128) (by omega) (Nat.div_le_div_right h)
      omega
    · rw [varintSize_of_lt (not_le.mp hv)]
      exact varintSize_pos w

theorem varintSize_le (h : v < 2 ^ (7 * (n + 1))) : varintSize v ≤ n + 1 := by
  induction n generalizing v with
  | zero => rw [varintSize_of_lt (by omega)]
  | succ n ih =>
    by_cases hle : 0x80 ≤ v
    · have hdiv : v / 128 < 2 ^ (7 * (n + 1)) := by
        rw [Nat.div_lt_iff_lt_mul (by decide)]
        refine h.trans_eq ?_
        rw [show 7 * (n + 1 + 1) = 7 * (n + 1) + 7 by omega, Nat.pow_add]
      have hsize := ih hdiv
      rw [varintSize_of_le hle]
      omega
    · rw [varintSize_of_lt (not_le.mp hle)]
      omega

theorem varintBytes_reverse (v : Nat) :
    ∃ b rest, (varintBytes v).reverse = b :: rest ∧ b < 0x80 ∧ ∀ c ∈ rest, ¬ c < 0x80 := by
  induction v using Nat.strongRecOn with
  | ind v ih =>
    by_cases h : 0x80 ≤ v
    · obtain ⟨b, rest, heq, hb, hrest⟩ := ih (v / 128) (by omega)
      refine ⟨b, rest ++ [.ofNat (v % 128 + 128)], ?_, hb, ?_⟩
      · rw [varintBytes_of_le h, reverse_cons, heq, cons_append]
      intro c hc
      rw [mem_append, mem_singleton] at hc
      cases hc with
      | inl hc => exact hrest c hc
      | inr hc =>
        rw [hc, lt_iff_toNat_lt, toNat_ofNat', not_lt]
        have hbound : UInt8.toNat 0x80 = 128 := rfl
        omega
    · refine ⟨.ofNat v, [], by rw [varintBytes_of_lt (not_le.mp h)]; rfl, ?_, nofun⟩
      rw [lt_iff_toNat_lt, toNat_ofNat']
      have hbound : UInt8.toNat 0x80 = 128 := rfl
      omega

/-! ## Reading -/

/-- Why a number could not be read. -/
inductive VarintError where
  | eof
  | overflow
deriving DecidableEq

/-- Read a number into a 64-bit word: the word, and the number of bytes read.  A group shifted
past the word contributes nothing; behind a group at `last` or above there may be no further
one. -/
def readVarint (last : Option Nat) : List UInt8 → Nat → Nat → Except VarintError (Nat × Nat)
  | [], _, _ => .error .eof
  | b :: rest, shift, word =>
    let word := word ||| ((b.toNat % 128) <<< shift) % 2 ^ 64
    if b < 0x80 then .ok (word, 1)
    else if last.any (· ≤ shift) then .error .overflow
    else (readVarint last rest (shift + 7) word).map fun r => (r.1, r.2 + 1)

section

variable {last : Option Nat} {bytes : List UInt8} {shift word v n : Nat}

theorem readVarint_single (last : Option Nat) {b : UInt8} (hb : b < 0x80) (rest : List UInt8) :
    readVarint last (b :: rest) 0 0 = .ok (b.toNat, 1) := by
  have hlt : b.toNat < 128 := lt_iff_toNat_lt.mp hb
  rw [readVarint, if_pos hb, Nat.shiftLeft_zero, Nat.mod_eq_of_lt hlt, Nat.mod_eq_of_lt (by omega),
    Nat.zero_or]

theorem readVarint_ok_aux (hword : word < 2 ^ 64) (hshift : word < 2 ^ shift)
    (h : readVarint last bytes shift word = .ok (v, n)) : v < 2 ^ 64 ∧ v < 2 ^ (shift + 7 * n) ∧
      ∃ pre b post, bytes = pre ++ b :: post ∧ pre.length + 1 = n ∧ b < 0x80 ∧
        ∀ c ∈ pre, ¬ c < 0x80 := by
  induction bytes generalizing shift word n with
  | nil => cases h
  | cons b rest ih =>
    have hgroup : (b.toNat % 128) <<< shift < 2 ^ (shift + 7) := by
      rw [Nat.shiftLeft_eq, Nat.add_comm, Nat.pow_add]
      exact Nat.mul_lt_mul_of_pos_right (Nat.mod_lt _ (by decide)) (Nat.two_pow_pos _)
    have hor : word ||| ((b.toNat % 128) <<< shift) % 2 ^ 64 < 2 ^ (shift + 7) :=
      Nat.or_lt_two_pow (hshift.trans_le (Nat.pow_le_pow_right (by decide) (by omega)))
        ((Nat.mod_le _ _).trans_lt hgroup)
    have hor' : word ||| ((b.toNat % 128) <<< shift) % 2 ^ 64 < 2 ^ 64 :=
      Nat.or_lt_two_pow hword (Nat.mod_lt _ (by decide))
    rw [readVarint] at h
    split at h
    · rename_i hlast
      cases h
      exact ⟨hor', hor, [], b, rest, rfl, rfl, hlast, nofun⟩
    rename_i hcont
    split at h
    · cases h
    cases hrest : readVarint last rest (shift + 7)
        (word ||| ((b.toNat % 128) <<< shift) % 2 ^ 64) with
    | error =>
      rw [hrest] at h
      cases h
    | ok r =>
      obtain ⟨_, _⟩ := r
      rw [hrest] at h
      cases h
      obtain ⟨hv, hbits, pre, c, post, rfl, rfl, hc, hpre⟩ := ih hor' hor hrest
      refine ⟨hv, ?_, b :: pre, c, post, rfl, rfl, hc, ?_⟩
      · rwa [Nat.add_assoc, show 7 + 7 * (pre.length + 1) = 7 * (pre.length + 1 + 1) by omega]
          at hbits
      intro d hd
      rw [mem_cons] at hd
      cases hd with
      | inl hd =>
        rw [hd]
        exact hcont
      | inr hd => exact hpre d hd

theorem readVarint_ok (h : readVarint last bytes 0 0 = .ok (v, n)) :
    v < 2 ^ 64 ∧ varintSize v ≤ n ∧ n ≤ bytes.length := by
  obtain ⟨hword, hbits, _, _, _, rfl, rfl, -, -⟩ := readVarint_ok_aux (by decide) (by decide) h
  refine ⟨hword, varintSize_le (by simpa using hbits), ?_⟩
  rw [length_append, length_cons]
  omega

end

/-! ## Bytes with few continuations in a row -/

/-- At most `limit` continuation bytes follow one another, and at most `k` at the start. -/
def Sparse (limit : Nat) : List UInt8 → Nat → Prop
  | [], _ => True
  | b :: rest, k => if b < 0x80 then Sparse limit rest limit else 0 < k ∧ Sparse limit rest (k - 1)

namespace Sparse

variable {limit k k' : Nat} {bytes front : List UInt8}

theorem mono (hle : k ≤ k') (h : Sparse limit bytes k) : Sparse limit bytes k' := by
  induction bytes generalizing k k' with
  | nil => trivial
  | cons _ _ ih =>
    rw [Sparse] at h ⊢
    split
    · rename_i hb
      rwa [if_pos hb] at h
    rename_i hb
    rw [if_neg hb] at h
    exact ⟨by omega, ih (by omega) h.2⟩

theorem drop (h : Sparse limit bytes limit) (n : Nat) : Sparse limit (bytes.drop n) limit := by
  induction n generalizing bytes with
  | zero => exact h
  | succ _ ih =>
    cases bytes with
    | nil => trivial
    | cons =>
      refine ih ?_
      rw [Sparse] at h
      split at h
      · exact h
      · exact mono (Nat.sub_le _ _) h.2

theorem append_plain (hfront : ∀ b ∈ front, b < 0x80) (h : Sparse limit bytes limit) :
    Sparse limit (front ++ bytes) limit := by
  induction front with
  | nil => exact h
  | cons b _ ih =>
    rw [cons_append, Sparse, if_pos (hfront b mem_cons_self)]
    exact ih fun c hc => hfront c (mem_cons_of_mem _ hc)

theorem plain_append (hne : front ≠ []) (hfront : ∀ b ∈ front, b < 0x80)
    (h : Sparse limit bytes limit) : Sparse limit (front ++ bytes) 0 := by
  cases front with
  | nil => exact absurd rfl hne
  | cons b =>
    rw [cons_append, Sparse, if_pos (hfront b mem_cons_self)]
    exact append_plain (fun c hc => hfront c (mem_cons_of_mem _ hc)) h

theorem append_continued (hfront : ∀ b ∈ front, ¬ b < 0x80) (hlength : front.length ≤ k)
    (h : Sparse limit bytes 0) : Sparse limit (front ++ bytes) k := by
  induction front generalizing k with
  | nil => exact mono (Nat.zero_le _) h
  | cons b _ ih =>
    rw [length_cons] at hlength
    rw [cons_append, Sparse, if_neg (hfront b mem_cons_self)]
    exact ⟨by omega, ih (fun c hc => hfront c (mem_cons_of_mem _ hc)) (by omega)⟩

theorem length_le (h : Sparse limit (front ++ bytes) k) (hfront : ∀ b ∈ front, ¬ b < 0x80) :
    front.length ≤ k := by
  induction front generalizing k with
  | nil => exact Nat.zero_le _
  | cons b _ ih =>
    rw [cons_append, Sparse, if_neg (hfront b mem_cons_self)] at h
    have hrest := ih h.2 fun c hc => hfront c (mem_cons_of_mem _ hc)
    rw [length_cons]
    omega

end Sparse

theorem readVarint_lt_of_sparse {last : Option Nat} {bytes : List UInt8} {limit : Nat}
    (hsparse : Sparse limit bytes limit) (h : readVarint last bytes 0 0 = .ok (v, n)) :
    v < 2 ^ (7 * (limit + 1)) := by
  obtain ⟨-, hbits, _, _, _, rfl, rfl, -, hpre⟩ :=
    readVarint_ok_aux (by decide) (by decide) h
  have hlength := hsparse.length_le hpre
  refine hbits.trans_le (Nat.pow_le_pow_right (by decide) ?_)
  omega

end HyperPax.Lib
