/-
  SetCode/Decoding.lean --- when decoding a `SetCodeTx` is safe.

  Source: x/evm/types/set_code_tx.go (SetCodeAuthorization.Unmarshal, SetCodeTx.Unmarshal).

  The bounds check of `setcodeReadLengthDelim` adds the index and the length as words.  A sum
  of `2^64` or more wraps to a number below the index, passes the check, and the slice then
  ends before it starts.  Every other path is safe: the index only moves forward.

  Both switches are instances of one scheme (`Decoder`): a field number is that of a
  number, of a content, or unknown.  What an iteration does is stated once, for the scheme.
-/
import HyperPax.SetCode.Wire

set_option autoImplicit false

namespace HyperPax.SetCode

open Lib Outcome List SetCodeAuthorization

/-! ## The readers -/

section

variable {data : List UInt8} {idx : Int} {wireType i n v : Nat} {e : VarintError} {r : Nat × Int}

theorem protoDecodeSetCodeVarint_of_ok (hi : i ≤ data.length)
    (h : readVarint (some 63) (data.drop i) 0 0 = .ok (v, n)) :
    protoDecodeSetCodeVarint data i = .ok (v, (i + n : Nat)) := by
  unfold protoDecodeSetCodeVarint
  rw [sliceFrom_nat hi, ok_bind, h]
  rfl

theorem protoDecodeSetCodeVarint_of_error (hi : i ≤ data.length)
    (h : readVarint (some 63) (data.drop i) 0 0 = .error e) :
    protoDecodeSetCodeVarint data i = .error (varintError e) := by
  unfold protoDecodeSetCodeVarint
  rw [sliceFrom_nat hi, ok_bind, h]
  rfl

theorem readVarint_drop (h : readVarint (some 63) (data.drop i) 0 0 = .ok (v, n)) :
    v < 2 ^ 64 ∧ varintSize v ≤ n ∧ 0 < n ∧ i + n ≤ data.length := by
  obtain ⟨hword, hsize, hinside⟩ := readVarint_ok h
  have hpos := varintSize_pos v
  rw [length_drop] at hinside
  exact ⟨hword, hsize, by omega, by omega⟩

theorem protoDecodeSetCodeVarint_ok (h : protoDecodeSetCodeVarint data idx = .ok r) :
    ∃ i n : Nat, idx = i ∧ i ≤ data.length ∧
      readVarint (some 63) (data.drop i) 0 0 = .ok (r.1, n) ∧ r.2 = (i + n : Nat) := by
  by_cases hin : 0 ≤ idx ∧ idx ≤ data.length
  · obtain ⟨i, rfl⟩ := Int.eq_ofNat_of_zero_le hin.1
    have hi : i ≤ data.length := by omega
    cases hread : readVarint (some 63) (data.drop i) 0 0 with
    | error =>
      rw [protoDecodeSetCodeVarint_of_error hi hread] at h
      cases h
    | ok p =>
      obtain ⟨_, n⟩ := p
      rw [protoDecodeSetCodeVarint_of_ok hi hread] at h
      cases h
      exact ⟨i, n, rfl, hi, hread, rfl⟩
  · have hpanic : (sliceFrom data idx : Outcome WireError (List UInt8)) =
        .panic (.slice idx data.length) := if_neg (by omega)
    unfold protoDecodeSetCodeVarint at h
    rw [hpanic] at h
    cases h

theorem setcodeReadLengthDelim_of_ok {length : Nat} (hi : i ≤ data.length)
    (hdata : data.length < 2 ^ 63) (h : readVarint (some 63) (data.drop i) 0 0 = .ok (length, n)) :
    setcodeReadLengthDelim data i 2 = if i + n + length ≤ data.length then
        .ok ((data.drop (i + n)).take length, (i + n + length : Nat))
      else if i + n + length < 2 ^ 64 then .error .unexpectedEOF
      else .panic (.slice (i + n : Nat) (i + n + length - 2 ^ 64 : Nat)) := by
  obtain ⟨hword, -, -, _⟩ := readVarint_drop h
  unfold setcodeReadLengthDelim
  rw [if_neg (not_not.mpr rfl), protoDecodeSetCodeVarint_of_ok hi h, ok_bind]
  dsimp only
  have hcast : ((i + n : Nat) : Int) + (length : Int) = (i + n + length : Nat) := by push_cast; rfl
  rw [hcast]
  by_cases hfits : i + n + length ≤ data.length
  · have hmod : ((i + n + length : Nat) : Int) % 2 ^ 64 = (i + n + length : Nat) := by omega
    rw [if_pos hfits, hmod, if_neg (by omega), int64_add_of_lt (by omega), sliceOf_nat hfits]
    rfl
  rw [if_neg hfits]
  by_cases hsum : i + n + length < 2 ^ 64
  · have hmod : ((i + n + length : Nat) : Int) % 2 ^ 64 = (i + n + length : Nat) := by omega
    rw [if_pos hsum, hmod, if_pos (by omega)]
  have hmod : ((i + n + length : Nat) : Int) % 2 ^ 64 = (i + n + length - 2 ^ 64 : Nat) := by omega
  have hstop : int64 (((i + n : Nat) : Int) + int64 length) =
      (i + n + length - 2 ^ 64 : Nat) := by
    rw [int64_add_wrap (by omega) (by omega) hword (by omega)]
    omega
  rw [if_neg hsum, hmod, if_neg (by omega), hstop, sliceOf_of_lt (by omega)]
  rfl

theorem setcodeReadLengthDelim_of_error (hi : i ≤ data.length)
    (h : readVarint (some 63) (data.drop i) 0 0 = .error e) :
    setcodeReadLengthDelim data i 2 = .error (varintError e) := by
  unfold setcodeReadLengthDelim
  rw [if_neg (not_not.mpr rfl), protoDecodeSetCodeVarint_of_error hi h]
  rfl

theorem protoDecodeSetCodeVarint_forward (h : protoDecodeSetCodeVarint data idx = .ok r) :
    idx < r.2 := by
  obtain ⟨_, _, rfl, _, hread, _⟩ := protoDecodeSetCodeVarint_ok h
  obtain ⟨-, -, _, -⟩ := readVarint_drop hread
  omega

theorem setcodeReadLengthDelim_forward {r : List UInt8 × Int}
    (h : setcodeReadLengthDelim data idx wireType = .ok r) : idx < r.2 := by
  unfold setcodeReadLengthDelim at h
  split at h
  · cases h
  obtain ⟨_, hp, hrest⟩ := bind_ok.mp h
  have hlt := protoDecodeSetCodeVarint_forward hp
  split at hrest
  · cases hrest
  obtain ⟨_, hslice, hr⟩ := bind_ok.mp hrest
  cases hr
  unfold sliceOf at hslice
  split at hslice
  · rename_i hin
    exact hlt.trans_le hin.2.1
  · cases hslice

theorem setcodeReadLengthDelim_of_ne (h : wireType ≠ 2) :
    setcodeReadLengthDelim data idx wireType = .error (.expectedLengthDelim wireType) := if_pos h

end

/-! ## The scheme of a switch -/

/-- What a field number stands for. -/
inductive Kind where
  /-- a `uint64`, with the error for another wire type -/
  | number (e : Nat → WireError)
  /-- a length-delimited content -/
  | content
  /-- unknown, to be skipped -/
  | other

/-- A switch over field numbers: how a number is set, and how a content is decoded and stored. -/
structure Decoder (M : Type) where
  kind : Nat → Kind
  setNumber : Nat → UInt64 → M → M
  store : Nat → List UInt8 → Outcome WireError (M → M)

/-- The header at an index. -/
def headerAt (data : List UInt8) (i : Nat) : Option Head :=
  match readVarint (some 63) (data.drop i) 0 0 with
  | .error _ => none
  | .ok tag =>
    match readVarint (some 63) (data.drop (i + tag.2)) 0 0 with
    | .error _ => none
    | .ok r => some ⟨tag.1 / 8, tag.1 % 8, r.1, i + tag.2 + r.2⟩

/-- The bytes that a header announces. -/
def contentIn (h : Head) (data : List UInt8) : List UInt8 := (data.drop h.stop).take h.number

variable {data : List UInt8} {i : Nat} {h : Head}

theorem headerAt_eq_some (hh : headerAt data i = some h) :
    ∃ tag n k, readVarint (some 63) (data.drop i) 0 0 = .ok (tag, n) ∧
      readVarint (some 63) (data.drop (i + n)) 0 0 = .ok (h.number, k) ∧
      h.num = tag / 8 ∧ h.wireType = tag % 8 ∧ h.stop = i + n + k := by
  unfold headerAt at hh
  split at hh
  · cases hh
  rename_i tag htag
  split at hh
  · cases hh
  rename_i r hr
  cases hh
  exact ⟨tag.1, tag.2, r.2, htag, hr, rfl, rfl, rfl⟩

theorem headerAt_inside (hh : headerAt data i = some h) :
    h.number < 2 ^ 64 ∧ i + 1 + varintSize h.number ≤ h.stop ∧ h.stop ≤ data.length := by
  obtain ⟨_, _, _, htag, hnumber, -, -, _⟩ := headerAt_eq_some hh
  obtain ⟨-, -, _, _⟩ := readVarint_drop htag
  obtain ⟨hword, _, -, _⟩ := readVarint_drop hnumber
  exact ⟨hword, by omega, by omega⟩

namespace Decoder

variable {M : Type}

/-- The case of a field number. -/
def readField (dec : Decoder M) (data : List UInt8) (m : M) (idx : Int) (fieldNum wireType : Nat) :
    Outcome WireError (Cursor M) :=
  match dec.kind fieldNum with
  | .number e => do
    let r ← readNumberField e data idx wireType
    return ⟨r.2, dec.setNumber fieldNum r.1 m⟩
  | .content => do
    let r ← setcodeReadLengthDelim data idx wireType
    let f ← dec.store fieldNum r.1
    return ⟨r.2, f m⟩
  | .other => do
    let idx ← setcodeSkipField data idx wireType
    return ⟨idx, m⟩

/-- A number follows the tag. -/
def Plain (dec : Decoder M) (h : Head) : Prop :=
  h.wireType = 0 ∧ dec.kind h.num ≠ .content

/-- A content follows the tag. -/
def Delimited (dec : Decoder M) (h : Head) : Prop :=
  h.wireType = 2 ∧ ∀ e, dec.kind h.num ≠ .number e

/-- The message with the number. -/
def withNumber (dec : Decoder M) (h : Head) (m : M) : M :=
  match dec.kind h.num with
  | .number _ => dec.setNumber h.num (.ofNat h.number) m
  | _ => m

/-- What becomes of a content. -/
def storing (dec : Decoder M) (h : Head) (content : List UInt8) : Outcome WireError (M → M) :=
  match dec.kind h.num with
  | .content => dec.store h.num content
  | _ => .ok id

variable {dec : Decoder M} {data : List UInt8} {i : Nat} {m : M} {h : Head}

section

variable (hi : i ≤ data.length)

include hi

theorem iteration_of_tag {tag n : Nat}
    (htag : readVarint (some 63) (data.drop i) 0 0 = .ok (tag, n)) :
    iteration (dec.readField data) data ⟨i, m⟩ =
      dec.readField data m (i + n : Nat) (tag / 8) (tag % 8) := by
  unfold iteration
  rw [protoDecodeSetCodeVarint_of_ok hi htag]
  rfl

theorem iteration_of_none (hh : headerAt data i = none) :
    ∃ e, iteration (dec.readField data) data ⟨i, m⟩ = .error e := by
  cases htag : readVarint (some 63) (data.drop i) 0 0 with
  | error =>
    unfold iteration
    rw [protoDecodeSetCodeVarint_of_error hi htag]
    exact ⟨_, rfl⟩
  | ok r =>
    obtain ⟨tag, n⟩ := r
    obtain ⟨-, -, -, hinside⟩ := readVarint_drop htag
    cases hnumber : readVarint (some 63) (data.drop (i + n)) 0 0 with
    | ok =>
      unfold headerAt at hh
      rw [htag] at hh
      dsimp only at hh
      rw [hnumber] at hh
      cases hh
    | error =>
      rw [iteration_of_tag hi htag]
      unfold readField readNumberField setcodeSkipField
      have hvarint := protoDecodeSetCodeVarint_of_error hinside hnumber
      have hdelim := setcodeReadLengthDelim_of_error hinside hnumber
      by_cases hzero : tag % 8 = 0
      · rw [hzero, setcodeReadLengthDelim_of_ne (by decide), hvarint]
        cases dec.kind (tag / 8) <;> exact ⟨_, rfl⟩
      by_cases htwo : tag % 8 = 2
      · rw [htwo, hdelim]
        cases dec.kind (tag / 8) <;> exact ⟨_, rfl⟩
      rw [setcodeReadLengthDelim_of_ne htwo]
      simp only [hzero, htwo, if_false, ne_eq, not_false_eq_true, if_true]
      cases dec.kind (tag / 8) <;> exact ⟨_, rfl⟩

theorem iteration_of_plain (hh : headerAt data i = some h) (hplain : dec.Plain h) :
    iteration (dec.readField data) data ⟨i, m⟩ = .ok ⟨h.stop, dec.withNumber h m⟩ := by
  obtain ⟨hwire, hkind⟩ := hplain
  obtain ⟨_, _, _, htag, hnumber, hfield, hwire', hstop⟩ := headerAt_eq_some hh
  obtain ⟨-, -, -, hinside⟩ := readVarint_drop htag
  rw [iteration_of_tag hi htag, ← hfield, ← hwire', hwire]
  unfold readField readNumberField setcodeSkipField withNumber
  rw [protoDecodeSetCodeVarint_of_ok hinside hnumber, hstop]
  cases hk : dec.kind h.num with
  | number => rfl
  | content => exact absurd hk hkind
  | other => rfl

theorem iteration_of_delimited (hdata : data.length < 2 ^ 63) (hh : headerAt data i = some h)
    (hdelim : dec.Delimited h) : iteration (dec.readField data) data ⟨i, m⟩ =
      if h.finish ≤ data.length then
        (dec.storing h (contentIn h data)).bind fun f => .ok ⟨h.finish, f m⟩
      else if h.finish < 2 ^ 64 then .error .unexpectedEOF
      else .panic (.slice h.stop (h.finish - 2 ^ 64 : Nat)) := by
  obtain ⟨hwire, hkind⟩ := hdelim
  obtain ⟨_, _, _, htag, hnumber, hfield, hwire', hstop⟩ := headerAt_eq_some hh
  obtain ⟨-, -, -, hinside⟩ := readVarint_drop htag
  rw [iteration_of_tag hi htag, ← hfield, ← hwire', hwire]
  unfold readField setcodeSkipField storing contentIn
  rw [setcodeReadLengthDelim_of_ok hinside hdata hnumber, Head.finish_of_content (by omega), hstop]
  cases hk : dec.kind h.num with
  | number e => exact absurd hk (hkind e)
  | content =>
    dsimp only
    split
    · rfl
    split
    · rfl
    · rfl
  | other =>
    dsimp only
    rw [if_neg (by decide), if_pos rfl]
    split
    · rfl
    split
    · rfl
    · rfl

theorem iteration_of_neither (hh : headerAt data i = some h) (hplain : ¬ dec.Plain h)
    (hdelim : ¬ dec.Delimited h) : ∃ e, iteration (dec.readField data) data ⟨i, m⟩ = .error e := by
  obtain ⟨_, _, _, htag, _, hfield, hwire, -⟩ := headerAt_eq_some hh
  rw [iteration_of_tag hi htag, ← hfield, ← hwire]
  unfold readField readNumberField setcodeSkipField
  cases hk : dec.kind h.num with
  | number =>
    have hne : h.wireType ≠ 0 := fun hzero => hplain ⟨hzero, by rw [hk]; exact nofun⟩
    dsimp only
    rw [if_pos hne]
    exact ⟨_, rfl⟩
  | content =>
    have hne : h.wireType ≠ 2 := fun htwo => hdelim ⟨htwo, by rw [hk]; exact fun e => nofun⟩
    rw [setcodeReadLengthDelim_of_ne hne]
    exact ⟨_, rfl⟩
  | other =>
    have hzero : h.wireType ≠ 0 := fun hzero => hplain ⟨hzero, by rw [hk]; exact nofun⟩
    have hne : h.wireType ≠ 2 := fun htwo => hdelim ⟨htwo, by rw [hk]; exact fun e => nofun⟩
    rw [if_neg hzero, if_neg hne]
    exact ⟨_, rfl⟩

end

theorem iteration_cases (dec : Decoder M) (hi : i ≤ data.length) (m : M) :
    (∃ e, iteration (dec.readField data) data ⟨i, m⟩ = .error e) ∨
      ∃ h, headerAt data i = some h ∧ (dec.Plain h ∨ dec.Delimited h) := by
  cases hh : headerAt data i with
  | none => exact .inl (iteration_of_none hi hh)
  | some h =>
    by_cases hplain : dec.Plain h
    · exact .inr ⟨h, rfl, .inl hplain⟩
    by_cases hdelim : dec.Delimited h
    · exact .inr ⟨h, rfl, .inr hdelim⟩
    · exact .inl (iteration_of_neither hi hh hplain hdelim)

variable {d : Cursor M}

/-- The iterations that go on. -/
theorem iteration_ok_iff (hi : i ≤ data.length) (hdata : data.length < 2 ^ 63) :
    iteration (dec.readField data) data ⟨i, m⟩ = .ok d ↔ ∃ h, headerAt data i = some h ∧
        ((dec.Plain h ∧ d = ⟨h.stop, dec.withNumber h m⟩) ∨
          (dec.Delimited h ∧ h.finish ≤ data.length ∧
            ∃ f, dec.storing h (contentIn h data) = .ok f ∧ d = ⟨h.finish, f m⟩)) := by
  constructor
  · intro hbody
    obtain ⟨_, he⟩ | ⟨h, hh, hplain | hdelim⟩ := iteration_cases dec hi m
    · rw [he] at hbody
      cases hbody
    · rw [iteration_of_plain hi hh hplain] at hbody
      cases hbody
      exact ⟨h, hh, .inl ⟨hplain, rfl⟩⟩
    rw [iteration_of_delimited hi hdata hh hdelim] at hbody
    split_ifs at hbody with hle
    obtain ⟨f, hf, hd⟩ := bind_ok.mp hbody
    cases hd
    exact ⟨h, hh, .inr ⟨hdelim, hle, f, hf, rfl⟩⟩
  · rintro ⟨_, hh, ⟨hplain, rfl⟩ | ⟨hdelim, hle, _, hf, rfl⟩⟩
    · exact iteration_of_plain hi hh hplain
    · rw [iteration_of_delimited hi hdata hh hdelim, if_pos hle, hf]
      rfl

/-- The iterations that panic. -/
theorem iteration_panic_iff (hi : i ≤ data.length) (hdata : data.length < 2 ^ 63) :
    (∃ p, iteration (dec.readField data) data ⟨i, m⟩ = .panic p) ↔
      ∃ h, headerAt data i = some h ∧ dec.Delimited h ∧ (2 ^ 64 ≤ h.finish ∨
          (h.finish ≤ data.length ∧ ∃ p, dec.storing h (contentIn h data) = .panic p)) := by
  constructor
  · rintro ⟨p, hbody⟩
    obtain ⟨_, he⟩ | ⟨h, hh, hplain | hdelim⟩ := iteration_cases dec hi m
    · rw [he] at hbody
      cases hbody
    · rw [iteration_of_plain hi hh hplain] at hbody
      cases hbody
    refine ⟨h, hh, hdelim, ?_⟩
    rw [iteration_of_delimited hi hdata hh hdelim] at hbody
    split_ifs at hbody with hle hsum
    · refine .inr ⟨hle, p, ?_⟩
      cases bind_eq_panic.mp hbody with
      | inl hpanic => exact hpanic
      | inr hafter =>
        obtain ⟨_, -, hf⟩ := hafter
        cases hf
    · exact .inl (not_lt.mp hsum)
  · rintro ⟨h, hh, hdelim, _ | ⟨hle, p, hp⟩⟩
    · refine ⟨.slice h.stop (h.finish - 2 ^ 64 : Nat), ?_⟩
      rw [iteration_of_delimited hi hdata hh hdelim, if_neg (by omega), if_neg (by omega)]
    refine ⟨p, ?_⟩
    rw [iteration_of_delimited hi hdata hh hdelim, if_pos hle, hp]
    rfl

theorem iteration_forward {c : Cursor M} (hbody : iteration (dec.readField data) data c = .ok d) :
    c.idx < d.idx := by
  obtain ⟨_, htag, hfield⟩ := bind_ok.mp hbody
  have hlt := protoDecodeSetCodeVarint_forward htag
  refine hlt.trans ?_
  unfold readField at hfield
  split at hfield
  · obtain ⟨r, hr, hd⟩ := bind_ok.mp hfield
    cases hd
    unfold readNumberField at hr
    split at hr
    · cases hr
    obtain ⟨_, hr', hd⟩ := bind_ok.mp hr
    cases hd
    exact protoDecodeSetCodeVarint_forward hr'
  · obtain ⟨r, hr, hrest⟩ := bind_ok.mp hfield
    obtain ⟨_, -, hd⟩ := bind_ok.mp hrest
    cases hd
    exact setcodeReadLengthDelim_forward hr
  · obtain ⟨_, hidx, hd⟩ := bind_ok.mp hfield
    cases hd
    unfold setcodeSkipField at hidx
    split at hidx
    · obtain ⟨r, hr, hd⟩ := bind_ok.mp hidx
      cases hd
      exact protoDecodeSetCodeVarint_forward hr
    split at hidx
    · obtain ⟨_, hr, hd⟩ := bind_ok.mp hidx
      cases hd
      exact setcodeReadLengthDelim_forward hr
    · cases hidx

end Decoder

/-- The bytes that are left. -/
def left {M : Type} (data : List UInt8) (c : Cursor M) : Nat := (data.length - c.idx).toNat

theorem left_lt {M : Type} {c d : Cursor M} (hmore : More data c) (hlt : c.idx < d.idx) :
    left data d < left data c := by
  unfold More at hmore
  unfold left
  omega

section

variable {M : Type} {body : Cursor M → Outcome WireError (Cursor M)} {data : List UInt8}
  {hbody : ∀ c d, body c = .ok d → c.idx < d.idx} {m m' : M} {p : Panic}

/-- The loop of an `Unmarshal`, from an empty message. -/
def run (body : Cursor M → Outcome WireError (Cursor M)) (data : List UInt8)
    (hbody : ∀ c d, body c = .ok d → c.idx < d.idx) (m : M) : Outcome WireError M := do
  let c ← runLoop (More data) body (left data) (fun c d hmore h => left_lt hmore (hbody c d h))
    ⟨0, m⟩
  return c.msg

theorem run_eq_ok : run body data hbody m = .ok m' ↔
    ∃ c, Reaches (More data) body ⟨0, m⟩ c ∧ ¬ More data c ∧ c.msg = m' := by
  unfold run
  rw [Outcome.bind_ok]
  constructor
  · rintro ⟨c, hc, hm⟩
    obtain ⟨_, hfuel⟩ := runLoop_eq_iff.mp hc
    obtain ⟨hreach, hstop⟩ := reaches_of_loop_ok hfuel
    cases hm
    exact ⟨c, hreach, hstop, rfl⟩
  · rintro ⟨c, hreach, hstop, rfl⟩
    have hlast : loop (More data) body 1 c = some (.ok c) := loop_of_not hstop
    exact ⟨c, runLoop_eq_iff.mpr (hreach.loop_of hlast), rfl⟩

theorem run_eq_panic : run body data hbody m = .panic p ↔
    ∃ c, Reaches (More data) body ⟨0, m⟩ c ∧ More data c ∧ body c = .panic p := by
  unfold run
  rw [bind_eq_panic]
  constructor
  · rintro (hpanic | ⟨c, -, hc⟩)
    · obtain ⟨_, hfuel⟩ := runLoop_eq_iff.mp hpanic
      exact reaches_of_loop_panic hfuel
    · cases hc
  · rintro ⟨c, hreach, hmore, hpanic⟩
    have hlast : loop (More data) body 1 c = some (.panic p) := loop_of_panic hmore hpanic
    exact .inl (runLoop_eq_iff.mpr (hreach.loop_of hlast))

end

/-! ## The two switches -/

section

variable {I A : Type}

/-- The switch of `SetCodeAuthorization.Unmarshal`. -/
def SetCodeAuthorization.readField (ints : Codec I) (data : List UInt8)
    (a : SetCodeAuthorization I) (idx : Int) (fieldNum wireType : Nat) :
    Outcome WireError (Cursor (SetCodeAuthorization I)) :=
  match fieldNum with
  | 1 => do
    let r ← setcodeReadIntField ints data idx wireType
    return ⟨r.2, { a with chainID := r.1 }⟩
  | 2 => do
    let r ← setcodeReadLengthDelim data idx wireType
    return ⟨r.2, { a with address := r.1 }⟩
  | 3 => do
    let r ← readNumberField .authNonceWireType data idx wireType
    return ⟨r.2, { a with nonce := r.1 }⟩
  | 4 => do
    let r ← setcodeReadLengthDelim data idx wireType
    return ⟨r.2, { a with v := r.1 }⟩
  | 5 => do
    let r ← setcodeReadLengthDelim data idx wireType
    return ⟨r.2, { a with r := r.1 }⟩
  | 6 => do
    let r ← setcodeReadLengthDelim data idx wireType
    return ⟨r.2, { a with s := r.1 }⟩
  | _ => do
    let idx ← setcodeSkipField data idx wireType
    return ⟨idx, a⟩

/-- An integer, or nil for an empty content. -/
def decodeInt (ints : Codec I) (content : List UInt8) : Outcome WireError (Option I) :=
  if content.length = 0 then .ok none
  else do
    let v ← .ofExcept .integer (ints.unmarshal content)
    return some v

variable (ints : Codec I) (tuples : Codec A)

theorem setcodeReadIntField_eq (data : List UInt8) (idx : Int) (wireType : Nat) :
    setcodeReadIntField ints data idx wireType = (do
      let r ← setcodeReadLengthDelim data idx wireType let v ← decodeInt ints r.1
      return (v, r.2)) := by
  unfold setcodeReadIntField decodeInt
  cases setcodeReadLengthDelim data idx wireType with
  | error => rfl
  | panic => rfl
  | ok r =>
    simp only [ok_bind]
    split
    · rfl
    cases ints.unmarshal r.1 with
    | error => rfl
    | ok => rfl

/-- The switch of an authorization in the scheme. -/
def authDecoder (ints : Codec I) : Decoder (SetCodeAuthorization I) where
  kind num :=
    if num = 3 then .number .authNonceWireType
    else if num ∈ [1, 2, 4, 5, 6] then .content
    else .other
  setNumber _ v a := { a with nonce := v }
  store num content :=
    if num = 1 then do
      let v ← decodeInt ints content
      return fun a => { a with chainID := v }
    else if num = 2 then .ok fun a => { a with address := content }
    else if num = 4 then .ok fun a => { a with v := content }
    else if num = 5 then .ok fun a => { a with r := content }
    else .ok fun a => { a with s := content }

theorem SetCodeAuthorization.readField_eq (data : List UInt8) :
    readField ints data = (authDecoder ints).readField data := by
  funext a idx fieldNum wireType
  unfold readField Decoder.readField
  split
  iterate 6 simp [authDecoder, setcodeReadIntField_eq, bind_assoc]
  · rename_i h₁ h₂ h₃ h₄ h₅ h₆
    have hnone : fieldNum ≠ 1 ∧ fieldNum ≠ 2 ∧ fieldNum ≠ 4 ∧ fieldNum ≠ 5 ∧ fieldNum ≠ 6 :=
      ⟨h₁, h₂, h₄, h₅, h₆⟩
    have hkind : (authDecoder ints).kind fieldNum = .other := by
      simp only [authDecoder, mem_cons, not_mem_nil, or_false]
      rw [if_neg h₃, if_neg (by omega)]
    rw [hkind]

theorem SetCodeAuthorization.iteration_forward (data : List UInt8)
    (c d : Cursor (SetCodeAuthorization I)) (h : iteration (readField ints data) data c = .ok d) :
    c.idx < d.idx := by
  rw [readField_eq] at h
  exact Decoder.iteration_forward h

/-- `SetCodeAuthorization.Unmarshal`. -/
def SetCodeAuthorization.unmarshal (ints : Codec I) (data : List UInt8) :
    Outcome WireError (SetCodeAuthorization I) :=
  run (iteration (readField ints data) data) data (iteration_forward ints data) .empty

/-- The switch of `SetCodeTx.Unmarshal`. -/
def SetCodeTx.readField (ints : Codec I) (tuples : Codec A) (data : List UInt8)
    (tx : SetCodeTx I A) (idx : Int) (fieldNum wireType : Nat) :
    Outcome WireError (Cursor (SetCodeTx I A)) :=
  match fieldNum with
  | 1 => do
    let r ← setcodeReadIntField ints data idx wireType
    return ⟨r.2, { tx with chainID := r.1 }⟩
  | 2 => do
    let r ← readNumberField .nonceWireType data idx wireType
    return ⟨r.2, { tx with nonce := r.1 }⟩
  | 3 => do
    let r ← setcodeReadIntField ints data idx wireType
    return ⟨r.2, { tx with gasTipCap := r.1 }⟩
  | 4 => do
    let r ← setcodeReadIntField ints data idx wireType
    return ⟨r.2, { tx with gasFeeCap := r.1 }⟩
  | 5 => do
    let r ← readNumberField .gasLimitWireType data idx wireType
    return ⟨r.2, { tx with gasLimit := r.1 }⟩
  | 6 => do
    let r ← setcodeReadLengthDelim data idx wireType
    return ⟨r.2, { tx with toAddress := r.1 }⟩
  | 7 => do
    let r ← setcodeReadIntField ints data idx wireType
    return ⟨r.2, { tx with amount := r.1 }⟩
  | 8 => do
    let r ← setcodeReadLengthDelim data idx wireType
    return ⟨r.2, { tx with data := r.1 }⟩
  | 9 => do
    let r ← setcodeReadLengthDelim data idx wireType
    let access ← .ofExcept .accessTuple (tuples.unmarshal r.1)
    return ⟨r.2, { tx with accesses := tx.accesses ++ [access] }⟩
  | 11 => do
    let r ← setcodeReadLengthDelim data idx wireType
    return ⟨r.2, { tx with v := r.1 }⟩
  | 12 => do
    let r ← setcodeReadLengthDelim data idx wireType
    return ⟨r.2, { tx with r := r.1 }⟩
  | 13 => do
    let r ← setcodeReadLengthDelim data idx wireType
    return ⟨r.2, { tx with s := r.1 }⟩
  | 14 => do
    let r ← setcodeReadLengthDelim data idx wireType
    let auth ← (unmarshal ints r.1).mapError .authorization
    return ⟨r.2, { tx with authList := tx.authList ++ [auth] }⟩
  | _ => do
    let idx ← setcodeSkipField data idx wireType
    return ⟨idx, tx⟩

/-- The switch of a transaction in the scheme. -/
def txDecoder (ints : Codec I) (tuples : Codec A) : Decoder (SetCodeTx I A) where
  kind num :=
    if num = 2 then .number .nonceWireType
    else if num = 5 then .number .gasLimitWireType
    else if num ∈ [1, 3, 4, 6, 7, 8, 9, 11, 12, 13, 14] then .content
    else .other
  setNumber num v tx := if num = 2 then { tx with nonce := v } else { tx with gasLimit := v }
  store num content :=
    if num = 1 then do
      let v ← decodeInt ints content
      return fun tx => { tx with chainID := v }
    else if num = 3 then do
      let v ← decodeInt ints content
      return fun tx => { tx with gasTipCap := v }
    else if num = 4 then do
      let v ← decodeInt ints content
      return fun tx => { tx with gasFeeCap := v }
    else if num = 7 then do
      let v ← decodeInt ints content
      return fun tx => { tx with amount := v }
    else if num = 6 then .ok fun tx => { tx with toAddress := content }
    else if num = 8 then .ok fun tx => { tx with data := content }
    else if num = 9 then do
      let access ← .ofExcept .accessTuple (tuples.unmarshal content)
      return fun tx => { tx with accesses := tx.accesses ++ [access] }
    else if num = 11 then .ok fun tx => { tx with v := content }
    else if num = 12 then .ok fun tx => { tx with r := content }
    else if num = 13 then .ok fun tx => { tx with s := content }
    else do
      let auth ← (unmarshal ints content).mapError .authorization
      return fun tx => { tx with authList := tx.authList ++ [auth] }

theorem SetCodeTx.readField_eq (data : List UInt8) :
    readField ints tuples data = (txDecoder ints tuples).readField data := by
  funext tx idx fieldNum wireType
  unfold readField Decoder.readField
  split
  iterate 13 simp [txDecoder, setcodeReadIntField_eq, bind_assoc]
  · rename_i h₁ h₂ h₃ h₄ h₅ h₆ h₇ h₈ h₉ h₁₁ h₁₂ h₁₃ h₁₄
    have hnone : fieldNum ≠ 1 ∧ fieldNum ≠ 3 ∧ fieldNum ≠ 4 ∧ fieldNum ≠ 6 ∧ fieldNum ≠ 7 ∧
        fieldNum ≠ 8 ∧ fieldNum ≠ 9 ∧ fieldNum ≠ 11 ∧ fieldNum ≠ 12 ∧ fieldNum ≠ 13 ∧
        fieldNum ≠ 14 := ⟨h₁, h₃, h₄, h₆, h₇, h₈, h₉, h₁₁, h₁₂, h₁₃, h₁₄⟩
    have hkind : (txDecoder ints tuples).kind fieldNum = .other := by
      simp only [txDecoder, mem_cons, not_mem_nil, or_false]
      rw [if_neg h₂, if_neg h₅, if_neg (by omega)]
    rw [hkind]

theorem SetCodeTx.iteration_forward (data : List UInt8) (c d : Cursor (SetCodeTx I A))
    (h : iteration (readField ints tuples data) data c = .ok d) : c.idx < d.idx := by
  rw [readField_eq] at h
  exact Decoder.iteration_forward h

/-- `SetCodeTx.Unmarshal`. -/
def SetCodeTx.unmarshal (ints : Codec I) (tuples : Codec A) (data : List UInt8) :
    Outcome WireError (SetCodeTx I A) :=
  run (iteration (readField ints tuples data) data) data (iteration_forward ints tuples data)
    .empty

end

/-! ## Safety -/

section

variable {M : Type}

namespace Decoder

/-- The field at `i` is read without an error and ends at `j`. -/
def Next (dec : Decoder M) (data : List UInt8) (i j : Nat) : Prop :=
  ∃ h, headerAt data i = some h ∧
    ((dec.Plain h ∧ j = h.stop) ∨ (dec.Delimited h ∧ h.finish ≤ data.length ∧
        (∃ f, dec.storing h (contentIn h data) = .ok f) ∧ j = h.finish))

/-- The indices at which reading field after field comes to a header. -/
inductive FieldAt (dec : Decoder M) (data : List UInt8) : Nat → Prop where
  | first : FieldAt dec data 0
  | next {i j : Nat} : FieldAt dec data i → i < data.length → dec.Next data i j →
    FieldAt dec data j

/-- A length-delimited field at `i` ends at `2^64` or beyond, or its content cannot be decoded
safely. -/
def Faults (dec : Decoder M) (panics : Nat → List UInt8 → Prop) (data : List UInt8) (i : Nat) :
    Prop :=
  ∃ h, headerAt data i = some h ∧ dec.Delimited h ∧
    (2 ^ 64 ≤ h.finish ∨ (h.finish ≤ data.length ∧ dec.kind h.num = .content ∧
        panics h.num (contentIn h data)))

/-- Reading field after field, up to the first error, meets no such field. -/
def Measured (dec : Decoder M) (panics : Nat → List UInt8 → Prop) (data : List UInt8) : Prop :=
  ∀ i, dec.FieldAt data i → i < data.length → ¬ dec.Faults panics data i

variable {dec : Decoder M} {data : List UInt8} {panics : Nat → List UInt8 → Prop}

variable {i : Nat}

theorem next_le {j : Nat} (h : dec.Next data i j) : j ≤ data.length := by
  obtain ⟨h, hh, ⟨-, rfl⟩ | ⟨-, hle, -, rfl⟩⟩ := h
  · exact (headerAt_inside hh).2.2
  · exact hle

variable (hdata : data.length < 2 ^ 63)

include hdata

variable {m : M}

theorem fieldAt_of_reaches {c : Cursor M}
    (hreach : Reaches (More data) (iteration (dec.readField data) data) ⟨0, m⟩ c) :
    ∃ i : Nat, dec.FieldAt data i ∧ i ≤ data.length ∧ c.idx = i := by
  refine hreach.invariant (P := fun c : Cursor M => ∃ i : Nat, dec.FieldAt data i ∧
    i ≤ data.length ∧ c.idx = i) ⟨0, .first, Nat.zero_le _, rfl⟩ ?_
  rintro ⟨_, _⟩ _ ⟨i, hat, hi, hidx⟩ hmore hbody
  subst hidx
  unfold More at hmore
  have hlt : i < data.length := by
    dsimp only at hmore
    omega
  obtain ⟨h, hh, ⟨hplain, rfl⟩ | ⟨hdelim, hle, f, hf, rfl⟩⟩ := (iteration_ok_iff hi hdata).mp hbody
  · exact ⟨h.stop, hat.next hlt ⟨h, hh, .inl ⟨hplain, rfl⟩⟩, (headerAt_inside hh).2.2, rfl⟩
  · exact ⟨h.finish, hat.next hlt ⟨h, hh, .inr ⟨hdelim, hle, ⟨f, hf⟩, rfl⟩⟩, hle, rfl⟩

theorem fieldAt_reached (m : M) (hat : dec.FieldAt data i) :
    i ≤ data.length ∧ ∃ m', Reaches (More data) (iteration (dec.readField data) data) ⟨0, m⟩
      ⟨i, m'⟩ := by
  induction hat with
  | first => exact ⟨Nat.zero_le _, m, .refl⟩
  | @next i j _ hlt hnext ih =>
    obtain ⟨hi, m', hreach⟩ := ih
    refine ⟨next_le hnext, ?_⟩
    have hmore : More data (⟨i, m'⟩ : Cursor M) := by
      unfold More
      dsimp only
      omega
    obtain ⟨h, hh, ⟨hplain, rfl⟩ | ⟨hdelim, hle, ⟨f, hf⟩, rfl⟩⟩ := hnext
    · exact ⟨_, hreach.tail hmore (iteration_of_plain hi hh hplain)⟩
    · refine ⟨f m', hreach.tail hmore ?_⟩
      exact (iteration_ok_iff hi hdata).mpr ⟨h, hh, .inr ⟨hdelim, hle, f, hf, rfl⟩⟩

variable
  (hpanics : ∀ num content, content.length < 2 ^ 63 → dec.kind num = .content →
      ((∃ p, dec.store num content = .panic p) ↔ panics num content))

include hpanics

theorem panic_iff_faults (hi : i ≤ data.length) (m : M) :
    (∃ p, iteration (dec.readField data) data ⟨i, m⟩ = .panic p) ↔ dec.Faults panics data i := by
  rw [iteration_panic_iff hi hdata]
  refine exists_congr fun h => and_congr_right fun _ => and_congr_right fun _ =>
    or_congr_right (and_congr_right fun _ => ?_)
  have hlength : (contentIn h data).length < 2 ^ 63 := by
    unfold contentIn
    rw [length_take, length_drop]
    omega
  unfold storing
  cases hk : dec.kind h.num with
  | content =>
    rw [and_iff_right rfl]
    exact hpanics _ _ hlength hk
  | number => simp
  | other => simp

theorem returns_iff {body : Cursor M → Outcome WireError (Cursor M)}
    (hbody : body = iteration (dec.readField data) data)
    {hforward : ∀ c d, body c = .ok d → c.idx < d.idx} :
    (run body data hforward m).Returns ↔ dec.Measured panics data := by
  subst hbody
  rw [Outcome.returns_iff]
  constructor
  · intro hreturns i hat _ hfaults
    obtain ⟨hi, m', hreach⟩ := fieldAt_reached hdata m hat
    obtain ⟨p, hp⟩ := (panic_iff_faults hdata hpanics hi m').mpr hfaults
    refine hreturns p (run_eq_panic.mpr ⟨_, hreach, ?_, hp⟩)
    unfold More
    dsimp only
    omega
  · intro hmeas p hpanic
    obtain ⟨⟨_, m'⟩, hreach, hmore, hp⟩ := run_eq_panic.mp hpanic
    obtain ⟨i, hat, hi, hidx⟩ := fieldAt_of_reaches hdata hreach
    subst hidx
    unfold More at hmore
    dsimp only at hmore
    exact hmeas i hat (by omega) ((panic_iff_faults hdata hpanics hi m').mp ⟨p, hp⟩)

end Decoder

end

/-! ## Results -/

section

variable {I A : Type} (ints : Codec I) (tuples : Codec A)

theorem decodeInt_ne_panic (content : List UInt8) (p : Panic) :
    decodeInt ints content ≠ .panic p := by
  unfold decodeInt
  split
  · exact nofun
  intro h
  cases bind_eq_panic.mp h with
  | inl hpanic => exact ofExcept_ne_panic hpanic
  | inr hafter =>
    obtain ⟨_, -, hv⟩ := hafter
    cases hv

/-- The bytes of an authorization: no field of its own faults. -/
def AuthMeasured (data : List UInt8) : Prop := (authDecoder ints).Measured (fun _ _ => False) data

/-- The bytes of a transaction: no field faults, those of its authorizations included. -/
def TxMeasured (data : List UInt8) : Prop :=
  (txDecoder ints tuples).Measured (fun num content => num = 14 ∧ ¬ AuthMeasured ints content) data

theorem authDecoder_store_panic (num : Nat) (content : List UInt8) :
    (∃ p, (authDecoder ints).store num content = .panic p) ↔ False := by
  refine iff_false_intro ?_
  rintro ⟨p, hp⟩
  simp only [authDecoder] at hp
  split_ifs at hp
  exact bind_ok_ne_panic (decodeInt_ne_panic ints content) _ p hp

theorem authorization_returns_iff (hdata : data.length < 2 ^ 63) :
    (unmarshal ints data).Returns ↔ AuthMeasured ints data :=
  Decoder.returns_iff hdata (fun num content _ _ => authDecoder_store_panic ints num content)
    (by rw [readField_eq])

theorem txDecoder_kind_content {num : Nat} (h : (txDecoder ints tuples).kind num = .content) :
    num ∈ [1, 3, 4, 6, 7, 8, 9, 11, 12, 13, 14] := by
  by_contra hnot
  simp only [txDecoder] at h
  rw [if_neg hnot] at h
  split_ifs at h

theorem txDecoder_store_panic (num : Nat) (content : List UInt8) (hlength : content.length < 2 ^ 63)
    (hkind : (txDecoder ints tuples).kind num = .content) :
    (∃ p, (txDecoder ints tuples).store num content = .panic p) ↔
      num = 14 ∧ ¬ AuthMeasured ints content := by
  have hint := bind_ok_ne_panic (β := SetCodeTx I A → SetCodeTx I A)
    (decodeInt_ne_panic ints content)
  have hmem := txDecoder_kind_content ints tuples hkind
  simp only [mem_cons, not_mem_nil, or_false] at hmem
  obtain rfl | rfl | rfl | rfl | rfl | rfl | rfl | rfl | rfl | rfl | rfl := hmem
  · exact iff_of_false (fun ⟨p, hp⟩ => hint _ p hp) (by simp)
  · exact iff_of_false (fun ⟨p, hp⟩ => hint _ p hp) (by simp)
  · exact iff_of_false (fun ⟨p, hp⟩ => hint _ p hp) (by simp)
  · exact iff_of_false nofun (by simp)
  · exact iff_of_false (fun ⟨p, hp⟩ => hint _ p hp) (by simp)
  · exact iff_of_false nofun (by simp)
  · exact iff_of_false
      (fun ⟨p, hp⟩ => bind_ok_ne_panic (fun _ => ofExcept_ne_panic) _ p hp) (by simp)
  · exact iff_of_false nofun (by simp)
  · exact iff_of_false nofun (by simp)
  · exact iff_of_false nofun (by simp)
  -- the panic is one of the nested decoder
  have hstore : (txDecoder ints tuples).store 14 content =
      (unmarshal ints content).mapError .authorization >>= fun auth =>
        .ok fun tx => { tx with authList := tx.authList ++ [auth] } := rfl
  rw [and_iff_right rfl, ← authorization_returns_iff ints hlength, returns_iff, not_forall]
  refine exists_congr fun p => ?_
  rw [hstore, not_not, bind_eq_panic, mapError_eq_panic]
  constructor
  · rintro (hpanic | ⟨a, -, ha⟩)
    · exact hpanic
    · cases ha
  · exact .inl

theorem transaction_returns_iff (hdata : data.length < 2 ^ 63) :
    (SetCodeTx.unmarshal ints tuples data).Returns ↔ TxMeasured ints tuples data :=
  Decoder.returns_iff hdata (txDecoder_store_panic ints tuples) (by rw [SetCodeTx.readField_eq])

/-- Both `Unmarshal` methods return, on a slice, exactly when its fields are measured; and on every
slice each iteration moves the index forward. -/
theorem setCode_safe_iff (data : Slice) : ((SetCodeTx.unmarshal ints tuples data.bytes).Returns ↔
        TxMeasured ints tuples data.bytes) ∧
      ((unmarshal ints data.bytes).Returns ↔ AuthMeasured ints data.bytes) ∧
      (∀ c d, iteration (SetCodeTx.readField ints tuples data.bytes) data.bytes c = .ok d →
        c.idx < d.idx) ∧ ∀ c d, iteration (readField ints data.bytes) data.bytes c = .ok d →
        c.idx < d.idx :=
  ⟨transaction_returns_iff ints tuples data.length_lt,
    authorization_returns_iff ints data.length_lt,
    SetCodeTx.iteration_forward ints tuples data.bytes,
    iteration_forward ints data.bytes⟩

end

/-- An unknown field whose length is the word `2^64 - 1`. -/
def wrappingField : List UInt8 :=
  [0x52, 0xff, 0xff, 0xff, 0xff, 0xff, 0xff, 0xff, 0xff, 0xff, 0x01]

/-- An authorization that consists of such a field. -/
def wrappingAuthorization : List UInt8 := 0x72 :: 0x0b :: wrappingField

/-- Both methods panic on such a field, that of a transaction also on one inside an
authorization. -/
theorem setCode_unsafe : SetCodeTx.unmarshal (⟨fun _ => [], fun _ => .ok ()⟩ : Codec Unit)
        (⟨fun _ => [], fun _ => .ok ()⟩ : Codec Unit) wrappingField = .panic (.slice 11 10) ∧
      SetCodeTx.unmarshal (⟨fun _ => [], fun _ => .ok ()⟩ : Codec Unit)
        (⟨fun _ => [], fun _ => .ok ()⟩ : Codec Unit) wrappingAuthorization =
          .panic (.slice 11 10) ∧
      unmarshal (⟨fun _ => [], fun _ => .ok ()⟩ : Codec Unit) wrappingField =
        .panic (.slice 11 10) := by
  refine ⟨?_, ?_, ?_⟩ <;> decide +kernel

end HyperPax.SetCode
