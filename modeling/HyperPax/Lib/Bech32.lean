/-
  Lib/Bech32.lean --- the bech32 text form of byte strings.

  A bech32 text is a lower-case prefix, the separator `1`, the payload in groups
  of five bits and six more groups of checksum; a reader accepts it in lower or in
  upper case.  The pieces, in the order of the file:

      regroup      eight-bit groups to five-bit groups and back, through the bits
      polymod      the checksum, linear over exclusive or
      encode       prefix, separator, payload and checksum as characters
      decode       the reader, with every one of its refusals

  The fact the rest of the development rests on is `decodeAndConvert_convertAndEncode`:
  what is written is read back.
-/
import Mathlib

set_option autoImplicit false

namespace HyperPax.Lib.Bech32

open List

/-- A group of five bits. -/
abbrev Quintet : Type := BitVec 5

/-! ## Regrouping bits -/

/-- The bits of a byte, most significant first. -/
def byteBits (b : UInt8) : List Bool :=
  [b.toBitVec.getMsbD 0, b.toBitVec.getMsbD 1, b.toBitVec.getMsbD 2, b.toBitVec.getMsbD 3,
    b.toBitVec.getMsbD 4, b.toBitVec.getMsbD 5, b.toBitVec.getMsbD 6, b.toBitVec.getMsbD 7]

/-- The byte with the given bits. -/
def byteOf (b₇ b₆ b₅ b₄ b₃ b₂ b₁ b₀ : Bool) : UInt8 :=
  .ofBitVec (.ofBoolListBE [b₇, b₆, b₅, b₄, b₃, b₂, b₁, b₀])

/-- The bits of a group, most significant first. -/
def quintetBits (q : Quintet) : List Bool :=
  [q.getMsbD 0, q.getMsbD 1, q.getMsbD 2, q.getMsbD 3, q.getMsbD 4]

/-- The group with the given bits. -/
def quintetOf (b₄ b₃ b₂ b₁ b₀ : Bool) : Quintet :=
  .ofBoolListBE [b₄, b₃, b₂, b₁, b₀]

theorem quintetBits_quintetOf (b₄ b₃ b₂ b₁ b₀ : Bool) :
    quintetBits (quintetOf b₄ b₃ b₂ b₁ b₀) = [b₄, b₃, b₂, b₁, b₀] := by
  revert b₄ b₃ b₂ b₁ b₀
  decide

theorem byteOf_byteBits (b : UInt8) :
    byteOf (b.toBitVec.getMsbD 0) (b.toBitVec.getMsbD 1) (b.toBitVec.getMsbD 2)
      (b.toBitVec.getMsbD 3) (b.toBitVec.getMsbD 4) (b.toBitVec.getMsbD 5)
      (b.toBitVec.getMsbD 6) (b.toBitVec.getMsbD 7) = b := by
  obtain ⟨v⟩ := b
  revert v
  decide +kernel

/-- Bits in groups of five, the last group filled up with zeros. -/
def quintets : List Bool → List Quintet
  | b₄ :: b₃ :: b₂ :: b₁ :: b₀ :: rest => quintetOf b₄ b₃ b₂ b₁ b₀ :: quintets rest
  | [] => []
  | [a] => [quintetOf a false false false false]
  | [a, b] => [quintetOf a b false false false]
  | [a, b, c] => [quintetOf a b c false false]
  | [a, b, c, d] => [quintetOf a b c d false]

/-- Bits in groups of eight, with the bits of an unfinished last group. -/
def octets : List Bool → List UInt8 × List Bool
  | b₇ :: b₆ :: b₅ :: b₄ :: b₃ :: b₂ :: b₁ :: b₀ :: rest =>
    (byteOf b₇ b₆ b₅ b₄ b₃ b₂ b₁ b₀ :: (octets rest).1, (octets rest).2)
  | rest => ([], rest)

/-- From bytes to five-bit groups, padding the last one. -/
def toQuintets (data : List UInt8) : List Quintet := quintets (data.flatMap byteBits)

/-- From five-bit groups to bytes: what is left over must be at most four zero
bits. -/
def ofQuintets (qs : List Quintet) : Option (List UInt8) :=
  let (data, rest) := octets (qs.flatMap quintetBits)
  if rest.length ≤ 4 ∧ rest.all (! ·) then some data else none

variable (q : Quintet) (n : Nat) (bits : List Bool) (qs : List Quintet)

theorem flatMap_quintetBits_quintets :
    ∃ n, n ≤ 4 ∧ (quintets bits).flatMap quintetBits = bits ++ .replicate n false := by
  fun_induction quintets bits with
  | case1 _ _ _ _ _ _ ih =>
    obtain ⟨n, hn, ih⟩ := ih
    refine ⟨n, hn, ?_⟩
    rw [flatMap_cons, quintetBits_quintetOf, ih]
    rfl
  | case2 => exact ⟨0, by decide, rfl⟩
  | case3 a => exact ⟨4, by decide, by revert a; decide⟩
  | case4 a b => exact ⟨3, by decide, by revert a b; decide⟩
  | case5 a b c => exact ⟨2, by decide, by revert a b c; decide⟩
  | case6 a b c d => exact ⟨1, by decide, by revert a b c d; decide⟩

theorem octets_replicate {n : Nat} (h : n ≤ 4) :
    octets (.replicate n false) = ([], .replicate n false) := by
  interval_cases n <;> rfl

theorem octets_byteBits (data : List UInt8) (rest : List Bool) :
    octets (data.flatMap byteBits ++ rest) = (data ++ (octets rest).1, (octets rest).2) := by
  induction data with
  | nil => rfl
  | cons _ _ ih =>
    simp only [flatMap_cons, byteBits, cons_append, nil_append, octets] at ih ⊢
    rw [ih, byteOf_byteBits]

theorem ofQuintets_toQuintets (data : List UInt8) : ofQuintets (toQuintets data) = some data := by
  obtain ⟨n, hn, hbits⟩ := flatMap_quintetBits_quintets (data.flatMap byteBits)
  have hoctets : octets ((toQuintets data).flatMap quintetBits) =
      (data, List.replicate n false) := by
    rw [toQuintets, hbits, octets_byteBits, octets_replicate hn, append_nil]
  have hzero : (List.replicate n false).length ≤ 4 ∧ (List.replicate n false).all (! ·) := by
    refine ⟨by rw [length_replicate]; exact hn, ?_⟩
    rw [all_eq_true]
    intro _ hb
    rw [eq_of_mem_replicate hb]
    rfl
  simp only [ofQuintets, hoctets]
  rw [if_pos hzero]

theorem length_quintets : (quintets bits).length = (bits.length + 4) / 5 := by
  fun_induction quintets bits with
  | case1 _ _ _ _ _ _ ih =>
    simp only [length_cons, ih]
    omega
  | case2 => rfl
  | case3 | case4 | case5 | case6 => decide +revert

theorem length_toQuintets (data : List UInt8) :
    (toQuintets data).length = (8 * data.length + 4) / 5 := by
  have hbits : (data.flatMap byteBits).length = 8 * data.length := by
    induction data with
    | nil => rfl
    | cons _ _ ih =>
      simp only [flatMap_cons, byteBits, length_append, length_cons, length_nil] at ih ⊢
      omega
  rw [toQuintets, length_quintets, hbits]

/-! ## The checksum -/

/-- The remainder: six groups of five bits. -/
abbrev Remainder : Type := BitVec 30

/-- The generator's word `g`, when the bit `i` of the remainder is shifted out. -/
def tap (c : Remainder) (i : Nat) (g : Remainder) : Remainder := if c.getLsbD i then g else 0#30

/-- Move the remainder up by one group and add the generator's words for the five
bits that fall out. -/
def shift (c : Remainder) : Remainder :=
  (c <<< 5) ^^^ tap c 25 0x3b6a57b2 ^^^ tap c 26 0x26508e6d ^^^ tap c 27 0x1ea119fa
    ^^^ tap c 28 0x3d4233dd ^^^ tap c 29 0x2a1462b3

/-- One step of the checksum. -/
def step (c : Remainder) (q : Quintet) : Remainder := shift c ^^^ q.setWidth 30

/-- The remainder after a list of groups, starting from one. -/
def polymod (qs : List Quintet) : Remainder := qs.foldl step 1

/-- The prefix as the checksum sees it: the high bits of its characters, a zero and
their low bits. -/
def hrpExpand (hrp : List UInt8) : List Quintet :=
  hrp.map (fun c : UInt8 => (c >>> 5).toBitVec.setWidth 5) ++ [0] ++
    hrp.map (fun c : UInt8 => c.toBitVec.setWidth 5)

/-- The six groups of a remainder, highest first. -/
def groups (c : Remainder) : List Quintet :=
  [(c >>> 25).setWidth 5, (c >>> 20).setWidth 5, (c >>> 15).setWidth 5, (c >>> 10).setWidth 5,
    (c >>> 5).setWidth 5, c.setWidth 5]

/-- The checksum of a payload. -/
def createChecksum (hrp : List UInt8) (payload : List Quintet) : List Quintet :=
  groups (polymod (hrpExpand hrp ++ payload ++ .replicate 6 0) ^^^ 1)

/-- Does the payload, its checksum included, leave the remainder one? -/
def verifyChecksum (hrp : List UInt8) (payload : List Quintet) : Bool :=
  polymod (hrpExpand hrp ++ payload) == 1

variable (a b c : Remainder)

theorem tap_xor (i : Nat) (g : Remainder) : tap (a ^^^ b) i g = tap a i g ^^^ tap b i g := by
  simp only [tap, BitVec.getLsbD_xor]
  cases a.getLsbD i <;> cases b.getLsbD i <;> simp

theorem shift_xor : shift (a ^^^ b) = shift a ^^^ shift b := by
  simp only [shift, tap_xor, BitVec.shiftLeft_xor_distrib]
  ac_rfl

theorem iterate_shift_xor : shift^[n] (a ^^^ b) = shift^[n] a ^^^ shift^[n] b := by
  induction n generalizing a b with
  | zero => rfl
  | succ _ ih => rw [Function.iterate_succ_apply, shift_xor, ih]; rfl

theorem foldl_step : qs.foldl step c = shift^[qs.length] c ^^^ qs.foldl step 0#30 := by
  induction qs generalizing c with
  | nil => simp
  | cons q _ ih =>
    have hzero : step 0#30 q = q.setWidth 30 := by
      rw [step, show shift 0#30 = 0#30 from rfl, BitVec.zero_xor]
    rw [foldl_cons, foldl_cons, ih (step c q), ih (step 0#30 q), hzero, step,
      iterate_shift_xor, BitVec.xor_assoc]
    rfl

theorem foldl_step_zeros : (List.replicate n (0 : Quintet)).foldl step 0#30 = 0#30 := by
  induction n with
  | zero => rfl
  | succ _ ih => exact ih

theorem step_group : step (c >>> 5) (c.setWidth 5) = c := by
  have htap : ∀ i g, 25 ≤ i → tap (c >>> 5) i g = 0#30 := by
    intro i _ hi
    rw [tap, BitVec.getLsbD_ushiftRight, BitVec.getLsbD_of_ge _ _ (by omega)]
    rfl
  simp only [step, shift, htap, le_refl, Nat.reduceLeDiff, BitVec.xor_zero]
  apply BitVec.eq_of_getLsbD_eq
  intro i _
  interval_cases i <;> simp

theorem foldl_step_groups : (groups c).foldl step 0#30 = c := by
  have htop : 0#30 = (c >>> 25) >>> 5 := by
    rw [← BitVec.shiftRight_add]
    exact (BitVec.ushiftRight_eq_zero (by decide)).symm
  have hdown : ∀ m n : Nat, m + 5 = n → c >>> n = (c >>> m) >>> 5 := by
    intro _ _ hmn
    rw [← BitVec.shiftRight_add, hmn]
  simp only [groups, foldl_cons, foldl_nil]
  rw [htop, step_group, hdown 20 25 rfl, step_group, hdown 15 20 rfl, step_group,
    hdown 10 15 rfl, step_group, hdown 5 10 rfl, step_group, step_group]

theorem verifyChecksum_createChecksum (hrp : List UInt8) (payload : List Quintet) :
    verifyChecksum hrp (payload ++ createChecksum hrp payload) := by
  have hsplit : ∀ (pre qs : List Quintet), qs.length = 6 →
      polymod (pre ++ qs) = shift^[6] (polymod pre) ^^^ qs.foldl step 0#30 := by
    intro _ _ hlen
    rw [polymod, foldl_append, foldl_step, hlen]
    rfl
  have hzeros : polymod (hrpExpand hrp ++ payload ++ .replicate 6 0) =
      shift^[6] (polymod (hrpExpand hrp ++ payload)) := by
    rw [hsplit _ _ rfl, foldl_step_zeros, BitVec.xor_zero]
  rw [verifyChecksum, beq_iff_eq, ← append_assoc, hsplit _ _ rfl, createChecksum,
    foldl_step_groups, hzeros, ← BitVec.xor_assoc, BitVec.xor_self, BitVec.zero_xor]

/-! ## The text -/

/-- `qpzry9x8gf2tvdw0s3jn54khce6mua7l`: the character of each group. -/
def charset : List UInt8 :=
  [0x71, 0x70, 0x7a, 0x72, 0x79, 0x39, 0x78, 0x38, 0x67, 0x66, 0x32, 0x74, 0x76, 0x64, 0x77, 0x30,
    0x73, 0x33, 0x6a, 0x6e, 0x35, 0x34, 0x6b, 0x68, 0x63, 0x65, 0x36, 0x6d, 0x75, 0x61, 0x37, 0x6c]

/-- The separator `1`. -/
def separator : UInt8 := 0x31

/-- The character of a group. -/
def toChar (q : Quintet) : UInt8 := charset.getD q.toNat 0

/-- The group of a character. -/
def ofChar (c : UInt8) : Option Quintet :=
  let i := charset.idxOf c
  if i < charset.length then some (.ofNat 5 i) else none

/-- `strings.ToLower` on one ASCII character. -/
def lower (c : UInt8) : UInt8 := if 0x41 ≤ c ∧ c ≤ 0x5a then c + 0x20 else c

/-- `strings.ToUpper` on one ASCII character. -/
def upper (c : UInt8) : UInt8 := if 0x61 ≤ c ∧ c ≤ 0x7a then c - 0x20 else c

/-- Write a prefix and a payload. -/
def encode (hrp : List UInt8) (payload : List Quintet) : List UInt8 :=
  hrp ++ separator :: (payload ++ createChecksum hrp payload).map toChar

/-- Cut a text at its last separator. -/
def cut (text : List UInt8) : Option (List UInt8 × List UInt8) :=
  match text.reverse.span (· ≠ separator) with
  | (_, []) => none
  | (tail, _ :: head) => some (head.reverse, tail.reverse)

/-- The longest text that is read. -/
def limit : Nat := 1023

/-- Read a text: its length, its characters, its case, the separator (with at
least one character before it and six after it), the payload's characters and the
checksum. -/
def decode (text : List UInt8) : Option (List UInt8 × List Quintet) := do
  guard (8 ≤ text.length ∧ text.length ≤ limit)
  guard (text.all fun c => 33 ≤ c ∧ c ≤ 126)
  guard (text = text.map lower ∨ text = text.map upper)
  let (hrp, data) ← cut (text.map lower)
  guard (1 ≤ hrp.length ∧ 6 ≤ data.length)
  let payload ← data.mapM ofChar
  guard (verifyChecksum hrp payload)
  pure (hrp, payload.take (payload.length - 6))

/-- `ConvertAndEncode`. -/
def convertAndEncode (hrp data : List UInt8) : List UInt8 := encode hrp (toQuintets data)

/-- `DecodeAndConvert`. -/
def decodeAndConvert (text : List UInt8) : Option (List UInt8 × List UInt8) := do
  let (hrp, payload) ← decode text
  let data ← ofQuintets payload
  pure (hrp, data)

/-! ## Reading back what was written -/

/-- A prefix that may stand before the separator: not empty, printable, and without
capital letters. -/
def Prefix (hrp : List UInt8) : Prop :=
  hrp ≠ [] ∧ ∀ c ∈ hrp, 33 ≤ c ∧ c ≤ 126 ∧ lower c = c

theorem ofChar_toChar : ofChar (toChar q) = some q := by
  revert q
  decide +kernel

theorem toChar_plain :
    33 ≤ toChar q ∧ toChar q ≤ 126 ∧ lower (toChar q) = toChar q ∧ toChar q ≠ separator := by
  revert q
  decide +kernel

variable {data hrp : List UInt8}

theorem cut_append (hrp : List UInt8) (h : ∀ c ∈ data, c ≠ separator) :
    cut (hrp ++ separator :: data) = some (hrp, data) := by
  have hspan : (hrp ++ separator :: data).reverse.span (· ≠ separator) =
      (data.reverse, separator :: hrp.reverse) := by
    rw [span_eq_takeWhile_dropWhile, reverse_append, reverse_cons, append_assoc,
      takeWhile_append_of_pos, dropWhile_append_of_pos]
    · simp
    · intro c hc
      simpa using h c (mem_reverse.mp hc)
    · intro c hc
      simpa using h c (mem_reverse.mp hc)
  unfold cut
  rw [hspan]
  simp

theorem mapM_ofChar : (qs.map toChar).mapM ofChar = some qs := by
  induction qs with
  | nil => rfl
  | cons _ _ ih => simp [mapM_cons, ofChar_toChar, ih]

theorem length_createChecksum (hrp : List UInt8) (payload : List Quintet) :
    (createChecksum hrp payload).length = 6 := rfl

theorem decode_encode (hhrp : Prefix hrp) {payload : List Quintet}
    (hlen : hrp.length + 7 + payload.length ≤ limit) :
    decode (encode hrp payload) = some (hrp, payload) := by
  have hplain : ∀ c ∈ encode hrp payload, (33 ≤ c ∧ c ≤ 126) ∧ lower c = c := by
    intro c hc
    rw [encode, mem_append, mem_cons, mem_map] at hc
    obtain hc | rfl | ⟨q, -, rfl⟩ := hc
    · exact ⟨⟨(hhrp.2 c hc).1, (hhrp.2 c hc).2.1⟩, (hhrp.2 c hc).2.2⟩
    · decide
    · exact ⟨⟨(toChar_plain q).1, (toChar_plain q).2.1⟩, (toChar_plain q).2.2.1⟩
  have hprintable : ((encode hrp payload).all fun c => 33 ≤ c ∧ c ≤ 126) := by
    rw [all_eq_true]
    intro c hc
    exact decide_eq_true (hplain c hc).1
  have hlower : (encode hrp payload).map lower = encode hrp payload := by
    conv_rhs => rw [← map_id (encode hrp payload)]
    exact map_congr_left fun c hc => (hplain c hc).2
  have hpos : 1 ≤ hrp.length := length_pos_iff.mpr hhrp.1
  have hcut : cut (encode hrp payload) =
      some (hrp, (payload ++ createChecksum hrp payload).map toChar) := by
    refine cut_append hrp ?_
    intro _ hc
    obtain ⟨q, -, rfl⟩ := mem_map.mp hc
    exact (toChar_plain q).2.2.2
  have hlength : (encode hrp payload).length = hrp.length + 7 + payload.length := by
    simp only [encode, length_append, length_cons, length_map, length_createChecksum]
    omega
  have hsix : 1 ≤ hrp.length ∧
      6 ≤ ((payload ++ createChecksum hrp payload).map toChar).length := by
    refine ⟨hpos, ?_⟩
    rw [length_map, length_append, length_createChecksum]
    omega
  unfold decode
  rw [hlower, hlength, hprintable, hcut]
  simp only [guard, hsix, mapM_ofChar, verifyChecksum_createChecksum, and_self, true_or, if_true,
    show 8 ≤ hrp.length + 7 + payload.length by omega, hlen, Option.pure_def, Option.bind_eq_bind,
    Option.bind_some, length_append, length_createChecksum, Nat.add_sub_cancel,
    take_left]

theorem decodeAndConvert_convertAndEncode (hhrp : Prefix hrp)
    (hlen : hrp.length + 7 + (8 * data.length + 4) / 5 ≤ limit) :
    decodeAndConvert (convertAndEncode hrp data) = some (hrp, data) := by
  have hdecode : decode (convertAndEncode hrp data) = some (hrp, toQuintets data) := by
    refine decode_encode hhrp ?_
    rw [length_toQuintets]
    exact hlen
  simp only [decodeAndConvert, hdecode, ofQuintets_toQuintets, Option.pure_def,
    Option.bind_eq_bind, Option.bind_some]

end HyperPax.Lib.Bech32
