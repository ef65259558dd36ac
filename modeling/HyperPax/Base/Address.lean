/-
  Base/Address.lean --- twenty-byte account addresses and big-endian words.

  `common.Address` is a fixed array of twenty bytes; records keep addresses as
  plain byte slices, so the two conversions of go-ethereum (`Bytes` and
  `BytesToAddress`) are part of the model.  Store keys append 64-bit words in
  big-endian order; that encoding is injective and has fixed length, which is all
  the key layouts need.
-/
import Mathlib

set_option autoImplicit false

namespace HyperPax

open List

/-! ## Big-endian 64-bit words -/

/-- `binary.BigEndian.PutUint64`. -/
def putUint64 (v : UInt64) : List UInt8 :=
  let n := v.toNat
  [.ofNat (n / 2 ^ 56), .ofNat (n / 2 ^ 48), .ofNat (n / 2 ^ 40), .ofNat (n / 2 ^ 32),
    .ofNat (n / 2 ^ 24), .ofNat (n / 2 ^ 16), .ofNat (n / 2 ^ 8), .ofNat n]

@[simp] theorem length_putUint64 (v : UInt64) : (putUint64 v).length = 8 := rfl

theorem putUint64_injective {v w : UInt64} (h : putUint64 v = putUint64 w) : v = w := by
  simp only [putUint64, List.cons.injEq, UInt8.ofNat_eq_iff_mod_eq_toNat, UInt8.toNat_ofNat',
    and_true] at h
  have hv := v.toNat_lt
  have hw := w.toNat_lt
  refine UInt64.toNat_inj.mp ?_
  omega

@[simp] theorem putUint64_inj {v w : UInt64} : putUint64 v = putUint64 w ↔ v = w :=
  ⟨putUint64_injective, congrArg putUint64⟩

/-- `binary.BigEndian.Uint64`. -/
def getUint64 (b : List UInt8) : UInt64 :=
  .ofNat (b.foldl (fun n x => n * 256 + x.toNat) 0)

@[simp] theorem getUint64_putUint64 (v : UInt64) : getUint64 (putUint64 v) = v := by
  have hv := v.toNat_lt
  refine UInt64.toNat_inj.mp ?_
  simp only [getUint64, putUint64, foldl_cons, foldl_nil, UInt8.toNat_ofNat', UInt64.toNat_ofNat']
  omega

/-- The number that bytes continue in big-endian order, from a number already read. -/
def readBytes (n : Nat) (b : List UInt8) : Nat := b.foldl (fun n x => n * 256 + x.toNat) n

@[simp] theorem readBytes_putUint64 (v : UInt64) : readBytes 0 (putUint64 v) = v.toNat := by
  have hv := v.toNat_lt
  simp only [readBytes, putUint64, foldl_cons, foldl_nil, UInt8.toNat_ofNat']
  omega

theorem readBytes_lt {m n : Nat} (hmn : m < n) {b b' : List UInt8} (hlen : b.length = b'.length) :
    readBytes m b < readBytes n b' := by
  induction b generalizing m n b' with
  | nil =>
    cases b' with
    | nil => exact hmn
    | cons => cases hlen
  | cons x _ ih =>
    cases b' with
    | nil => cases hlen
    | cons y =>
      have hx := x.toNat_lt
      have hnext : m * 256 + x.toNat < n * 256 + y.toNat := by omega
      exact ih hnext (Nat.add_right_cancel hlen)

theorem readBytes_lt_of_compare {b b' : List UInt8} (hlen : b.length = b'.length)
    (h : compare b b' = .lt) (n : Nat) : readBytes n b < readBytes n b' := by
  induction b generalizing n b' with
  | nil =>
    cases b' with
    | nil => cases h
    | cons => cases hlen
  | cons x _ ih =>
    cases b' with
    | nil => cases hlen
    | cons y =>
      rw [List.compare_cons_cons, Ordering.then_eq_lt] at h
      cases h with
      | inl hlt =>
        have hxy : x.toNat < y.toNat :=
          UInt8.lt_iff_toNat_lt.mp (compareOfLessAndEq_eq_lt.mp hlt)
        have hnext : n * 256 + x.toNat < n * 256 + y.toNat := by omega
        exact readBytes_lt hnext (Nat.add_right_cancel hlen)
      | inr heq =>
        rw [Std.compare_eq_iff_eq.mp heq.1]
        exact ih (Nat.add_right_cancel hlen) heq.2 _

theorem lt_of_compare_putUint64 {v w : UInt64} (h : compare (putUint64 v) (putUint64 w) = .lt) :
    v < w := by
  have hlt := readBytes_lt_of_compare (by simp) h 0
  rw [readBytes_putUint64, readBytes_putUint64] at hlt
  exact UInt64.lt_iff_toNat_lt.mpr hlt

theorem lt_add_one_of_ne_zero {n : UInt64} (h : n + 1 ≠ 0) : n < n + 1 := by
  have hlt := n.toNat_lt
  have hne : (n + 1).toNat ≠ 0 := fun h0 => h (UInt64.toNat_inj.mp h0)
  rw [UInt64.toNat_add] at hne
  rw [UInt64.lt_iff_toNat_lt, UInt64.toNat_add]
  simp only [UInt64.reduceToNat] at hne ⊢
  omega

/-! ## Addresses -/

/-- `common.Address`: exactly twenty bytes. -/
structure Address where
  bytes : List UInt8
  length_bytes : bytes.length = 20
deriving DecidableEq

namespace Address

@[ext] theorem ext {a b : Address} (h : a.bytes = b.bytes) : a = b := by
  cases a
  cases b
  simpa using h

/-- The address with the given big-endian number, modulo `2^160`. -/
def ofNat (n : Nat) : Address where
  bytes := (List.range 20).map fun i => UInt8.ofNat (n / 256 ^ (19 - i))
  length_bytes := by simp

/-- `common.Address{}`. -/
def zero : Address := ofNat 0

instance : Inhabited Address := ⟨zero⟩

/-- There are finitely many addresses. -/
instance : Finite Address := by
  let digits (a : Address) : List.Vector (Fin 256) 20 :=
    ⟨a.bytes.map UInt8.toFin, by rw [length_map, a.length_bytes]⟩
  refine Finite.of_injective digits ?_
  intro a b h
  have hmap : a.bytes.map UInt8.toFin = b.bytes.map UInt8.toFin := congrArg Subtype.val h
  exact Address.ext (map_injective_iff.mpr (fun _ _ => UInt8.toFin_inj.mp) hmap)

/-- `common.BytesToAddress`: the last twenty bytes, left-padded with zeros. -/
def ofBytes (b : List UInt8) : Address where
  bytes := .replicate (20 - b.length) 0 ++ b.drop (b.length - 20)
  length_bytes := by
    rw [length_append, length_replicate, length_drop]
    omega

@[simp] theorem ofBytes_bytes (a : Address) : ofBytes a.bytes = a := by
  refine Address.ext ?_
  simp [ofBytes, a.length_bytes]

end Address

/-- The constant-time comparison of two byte slices: equal lengths and a zero
accumulated difference. -/
def equalAddress (a b : List UInt8) : Bool :=
  if a.length ≠ b.length then false
  else (List.zip a b).foldl (fun diff p => diff ||| (p.1 ^^^ p.2)) (0 : UInt8) == 0

theorem foldl_diff_eq_zero (ps : List (UInt8 × UInt8)) (d : UInt8) :
    ps.foldl (fun diff p => diff ||| (p.1 ^^^ p.2)) d = 0 ↔ d = 0 ∧ ∀ p ∈ ps, p.1 = p.2 := by
  induction ps generalizing d with
  | nil => simp
  | cons _ _ ih =>
    rw [foldl_cons, ih]
    simp only [UInt8.or_eq_zero_iff, UInt8.xor_eq_zero_iff, forall_mem_cons, and_assoc]

@[simp] theorem equalAddress_iff (a b : List UInt8) : equalAddress a b ↔ a = b := by
  unfold equalAddress
  split
  · rename_i hlen
    simp only [Bool.false_eq_true, false_iff]
    intro hab
    exact hlen (congrArg List.length hab)
  rename_i hlen
  have hlen : a.length = b.length := not_not.mp hlen
  rw [beq_iff_eq, foldl_diff_eq_zero]
  constructor
  · rintro ⟨-, hall⟩
    refine ext_getElem hlen ?_
    intro i _ _
    have hmem : (a[i], b[i]) ∈ a.zip b := by
      rw [← List.getElem_zip (h := by simp; omega)]
      exact List.getElem_mem _
    exact hall _ hmem
  · rintro rfl
    refine ⟨rfl, ?_⟩
    intro _ hp
    obtain ⟨_, _, rfl⟩ := mem_iff_getElem.mp hp
    rw [List.getElem_zip]

end HyperPax
