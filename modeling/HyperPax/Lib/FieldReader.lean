/-
  Lib/FieldReader.lean --- decoders with a signed index, and when they are safe.

  A decoder reads a tag and a number at an index; a content of as many bytes may follow.
  The number is a word of up to `2^64 - 1`, the end of the content is the sum of two
  signed `int`s, and one check compares it with the length of the bytes.  As long as the
  sum is below `2^63` the check means what it says: the content lies inside the bytes and
  the index moves forward.  From `2^63` on the sum is negative or goes back, the check
  passes, and the decoder slices out of range, allocates an unchecked length or reads
  bytes it has read before.  `Measured` says, of the bytes alone, that no header met in
  reading order announces such a length; it is exactly safety.

  A decoder that ends with a message, over bytes that announce no length beyond an `int`,
  reads forward (`fieldSteps_of_loop`), which is what `ComesBack` is about.
-/
import HyperPax.Lib.Machine
import HyperPax.Lib.Reading

set_option autoImplicit false

namespace HyperPax.Lib

open Outcome List Relation Head

/-! ## The decoder -/

/-- `[]byte`: a Go slice has a length that is an `int`. -/
structure Slice where
  bytes : List UInt8
  length_lt : bytes.length < 2 ^ 63

/-- Where the loop of a decoder is: the index, and the message so far. -/
structure Cursor (M : Type) where
  idx : Int
  msg : M
deriving DecidableEq

/-- `idx < len(data)`. -/
def More {M : Type} (data : List UInt8) (c : Cursor M) : Prop := c.idx < data.length

instance {M : Type} (data : List UInt8) : DecidablePred (More (M := M) data) :=
  fun c => inferInstanceAs (Decidable (c.idx < data.length))

/-- What a decoder does with a content. -/
inductive Use where
  /-- it is passed over -/
  | skip
  /-- `data[lo:hi]` -/
  | slice
  /-- `data[lo:hi]` is copied into a buffer of the announced length, which is made first -/
  | copy
deriving DecidableEq

/-- A decoder: the wire types it knows, its errors, and what it does with a field of a number. -/
structure FieldReader (ε M : Type) where
  wireTypes : List UInt8
  eof : ε
  badWireType : UInt8 → UInt8 → ε
  use : Nat → Use
  setNumber : Nat → Nat → M → M
  setContent : Nat → List UInt8 → M → M

/-- `make([]byte, length)`. -/
def makeBytes {ε : Type} (length : Nat) : Outcome ε Unit :=
  if length < 2 ^ 63 then .ok () else .panic (.make length)

namespace FieldReader

variable {ε M : Type}

/-- Read the header at an index inside the bytes.  The loop over the groups of the number does not
bound the shift. -/
def readHeader (R : FieldReader ε M) (data : List UInt8) (i : Nat) : Except ε Head :=
  match data.drop i with
  | [] => .error R.eof
  | tag :: rest =>
    if tag % 8 ∈ R.wireTypes then
      match readVarint none rest 0 0 with
      | .error _ => .error R.eof
      | .ok (number, n) => .ok ⟨(tag / 8).toNat, (tag % 8).toNat, number, i + 1 + n⟩
    else .error (R.badWireType (tag % 8) (tag / 8))

/-- Store the content between the header and an index. -/
def store (R : FieldReader ε M) (data : List UInt8) (h : Head) (stop : Int) (msg : M) :
    Outcome ε M :=
  match R.use h.num with
  | .skip => return msg
  | .slice => do
    let content ← sliceOf data h.stop stop
    return R.setContent h.num content msg
  | .copy => do
    makeBytes h.number
    let content ← sliceOf data h.stop stop
    return R.setContent h.num content msg

/-- The rest of an iteration, after the header. -/
def takeField (R : FieldReader ε M) (data : List UInt8) (msg : M) (h : Head) :
    Outcome ε (Cursor M) :=
  if h.wireType = 0 then .ok ⟨h.stop, R.setNumber h.num h.number msg⟩
  else
    let stop := int64 (h.stop + int64 h.number)
    if (data.length : Int) < stop then .error R.eof
    else do
      let msg ← R.store data h stop msg
      return ⟨stop, msg⟩

/-- One iteration of the loop. -/
def iteration (R : FieldReader ε M) (data : List UInt8) (c : Cursor M) : Outcome ε (Cursor M) :=
  if c.idx < 0 then .panic (.index c.idx)
  else
    match R.readHeader data c.idx.toNat with
    | .error e => .error e
    | .ok h => R.takeField data c.msg h

/-- Decode into a message, in at most `fuel` iterations. -/
def unmarshal (R : FieldReader ε M) (fuel : Nat) (data : List UInt8) (msg : M) :
    Option (Outcome ε (Cursor M)) :=
  loop (More data) (R.iteration data) fuel ⟨0, msg⟩

/-- What a message becomes with a piece. -/
def take (R : FieldReader ε M) (num : Nat) (p : Piece) (msg : M) : M :=
  match p with
  | .varint v => R.setNumber num v msg
  | .bytes content => if R.use num = .skip then msg else R.setContent num content msg

end FieldReader

/-! ## One iteration -/

/-- The field ends below `2^63`. -/
def Head.Fits (h : Head) : Prop := h.finish < 2 ^ 63
deriving Decidable

variable {h : Head} {data : List UInt8}

theorem Head.finish_of_number (hwire : h.wireType = 0) : h.finish = h.stop := if_pos hwire

theorem Head.finish_of_content (hwire : h.wireType ≠ 0) : h.finish = h.stop + h.number :=
  if_neg hwire

theorem Head.stop_le_finish (h : Head) : h.stop ≤ h.finish := by
  unfold finish
  split
  · exact le_refl _
  · exact Nat.le_add_right _ _

theorem Head.content_of_not_fits (hstop : h.stop ≤ data.length) (hdata : data.length < 2 ^ 63)
    (hfits : ¬ h.Fits) : h.wireType ≠ 0 ∧ 2 ^ 63 ≤ h.stop + h.number := by
  unfold Fits at hfits
  have hwire : h.wireType ≠ 0 := fun hzero => by
    rw [finish_of_number hzero] at hfits
    omega
  rw [finish_of_content hwire] at hfits
  exact ⟨hwire, by omega⟩

namespace FieldReader

variable {ε M : Type} {R : FieldReader ε M} {h : Head} {data : List UInt8} {i : Nat}
  {c d : Cursor M} {msg : M}

theorem readHeader_ok (hread : R.readHeader data i = .ok h) :
    h.number < 2 ^ 64 ∧ i + 1 + varintSize h.number ≤ h.stop ∧ h.stop ≤ data.length ∧
      ∃ n, readVarint none (data.drop (i + 1)) 0 0 = .ok (h.number, n) ∧ h.stop = i + 1 + n := by
  unfold readHeader at hread
  split at hread
  · cases hread
  rename_i tag rest hdrop
  split at hread
  · split at hread
    · cases hread
    rename_i number n hnumber
    cases hread
    obtain ⟨hword, _, _⟩ := readVarint_ok hnumber
    have hlength := congrArg List.length hdrop
    rw [length_drop, length_cons] at hlength
    have hrest : data.drop (i + 1) = rest := by
      rw [← drop_drop, hdrop]
      rfl
    refine ⟨hword, by dsimp only; omega, by dsimp only; omega, n, ?_, rfl⟩
    rw [hrest]
    exact hnumber
  · cases hread

theorem more_of_header (hread : R.readHeader data i = .ok h) (msg : M) :
    More data (⟨i, msg⟩ : Cursor M) := by
  obtain ⟨-, _, _, -⟩ := readHeader_ok hread
  unfold More
  dsimp only
  omega

variable (msg) in
theorem takeField_inside (hfits : h.Fits) (hle : h.finish ≤ data.length) :
    R.takeField data msg h = .ok ⟨h.finish, R.take h.num (h.piece data) msg⟩ := by
  unfold Head.Fits at hfits
  unfold takeField piece take
  by_cases hwire : h.wireType = 0
  · simp only [if_pos hwire, finish_of_number hwire]
  rw [finish_of_content hwire] at hfits hle ⊢
  have hmake : (makeBytes h.number : Outcome ε Unit) = .ok () := if_pos (by omega)
  rw [if_neg hwire, if_neg hwire, int64_add_of_lt hfits, if_neg (by omega), store, hmake,
    sliceOf_nat hle]
  cases huse : R.use h.num with
  | skip => rfl
  | slice | copy => rfl

variable (msg) in
theorem takeField_outside (hstop : h.stop ≤ data.length) (hfits : h.Fits)
    (hlt : data.length < h.finish) : R.takeField data msg h = .error R.eof := by
  unfold Head.Fits at hfits
  have hwire : h.wireType ≠ 0 := fun hzero => by
    rw [finish_of_number hzero] at hlt
    omega
  rw [finish_of_content hwire] at hfits hlt
  unfold takeField
  rw [if_neg hwire, int64_add_of_lt hfits, if_pos (by omega)]

variable (msg) in
theorem takeField_unfit (hread : R.readHeader data i = .ok h) (hdata : data.length < 2 ^ 63)
    (hfits : ¬ h.Fits) : (∃ p, R.takeField data msg h = .panic p) ∨
      R.takeField data msg h = .ok ⟨int64 (h.stop + int64 h.number), msg⟩ ∧
        int64 (h.stop + int64 h.number) < h.stop := by
  obtain ⟨hnumber, -, hstop, -⟩ := readHeader_ok hread
  obtain ⟨hwire, hsum⟩ := content_of_not_fits hstop hdata hfits
  have hback := int64_add_lt (Int.natCast_nonneg h.stop) (by omega) hnumber (by omega)
  unfold takeField
  rw [if_neg hwire, if_neg (by omega), store, sliceOf_of_lt hback]
  cases R.use h.num with
  | skip => exact .inr ⟨rfl, hback⟩
  | slice => exact .inl ⟨_, rfl⟩
  | copy =>
    by_cases hmake : h.number < 2 ^ 63
    · rw [makeBytes, if_pos hmake]
      exact .inl ⟨_, rfl⟩
    · rw [makeBytes, if_neg hmake]
      exact .inl ⟨_, rfl⟩

theorem iteration_nat (R : FieldReader ε M) (data : List UInt8) (i : Nat) (msg : M) :
    R.iteration data ⟨i, msg⟩ =
      match R.readHeader data i with
      | .error e => .error e
      | .ok h => R.takeField data msg h := by
  unfold iteration
  rw [if_neg (by dsimp only; omega)]
  rfl

theorem iteration_of_header (hread : R.readHeader data i = .ok h) (msg : M) :
    R.iteration data ⟨i, msg⟩ = R.takeField data msg h := by
  rw [iteration_nat, hread]

theorem iteration_ok (hbody : R.iteration data c = .ok d) :
    ∃ (i : Nat) (h : Head), c.idx = i ∧ R.readHeader data i = .ok h ∧
      R.takeField data c.msg h = .ok d := by
  unfold iteration at hbody
  split at hbody
  · cases hbody
  rename_i hneg
  split at hbody
  · cases hbody
  · rename_i h hread
    exact ⟨c.idx.toNat, h, (Int.toNat_of_nonneg (not_lt.mp hneg)).symm, hread, hbody⟩

theorem iteration_fits (hread : R.readHeader data i = .ok h) (hfits : h.Fits) (msg : M) :
    (h.finish ≤ data.length ∧
        R.iteration data ⟨i, msg⟩ = .ok ⟨h.finish, R.take h.num (h.piece data) msg⟩) ∨
      (data.length < h.finish ∧ R.iteration data ⟨i, msg⟩ = .error R.eof) := by
  rw [iteration_of_header hread]
  obtain ⟨-, -, hstop, -⟩ := readHeader_ok hread
  by_cases hle : h.finish ≤ data.length
  · exact .inl ⟨hle, takeField_inside msg hfits hle⟩
  · exact .inr ⟨not_le.mp hle, takeField_outside msg hstop hfits (not_le.mp hle)⟩

/-! ## Whole runs -/

/-- A buffer is made: the content is copied, and passes the check. -/
def Allocates (R : FieldReader ε M) (data : List UInt8) (h : Head) : Prop :=
  h.wireType ≠ 0 ∧ R.use h.num = .copy ∧ int64 (h.stop + int64 h.number) ≤ data.length

/-- Decoding these bytes is safe: it returns, with a message or an error; no iteration moves the
index back behind the header it has read; and no buffer is made that is longer than the bytes that
are left. -/
structure Safe (R : FieldReader ε M) (data : List UInt8) (msg : M) : Prop where
  returns : ∃ fuel r, R.unmarshal fuel data msg = some r ∧ r.Returns
  forward : ∀ c c' h, Reaches (More data) (R.iteration data) ⟨0, msg⟩ c → More data c →
    R.readHeader data c.idx.toNat = .ok h → R.iteration data c = .ok c' →
      c.idx < h.stop ∧ (h.stop : Int) ≤ c'.idx
  allocated : ∀ c h, Reaches (More data) (R.iteration data) ⟨0, msg⟩ c → More data c →
    0 ≤ c.idx → R.readHeader data c.idx.toNat = .ok h → R.Allocates data h →
      h.number ≤ data.length - h.stop

/-- The indices at which reading field after field meets a header: each field that ends inside
the bytes is followed by the next. -/
inductive HeaderAt (R : FieldReader ε M) (data : List UInt8) : Nat → Prop where
  | first : HeaderAt R data 0
  | after {i : Nat} {h : Head} : HeaderAt R data i → R.readHeader data i = .ok h →
    h.finish ≤ data.length → HeaderAt R data h.finish

/-- No header met in reading order announces a field that ends at `2^63` or beyond. -/
def Measured (R : FieldReader ε M) (data : List UInt8) : Prop :=
  ∀ i h, R.HeaderAt data i → R.readHeader data i = .ok h → h.Fits

theorem reaches_headerAt (hdata : data.length < 2 ^ 63) (hat : R.HeaderAt data i) :
    ∃ msg', Reaches (More data) (R.iteration data) ⟨0, msg⟩ ⟨i, msg'⟩ := by
  induction hat with
  | first => exact ⟨msg, .refl⟩
  | @after i h _ hread hle ih =>
    obtain ⟨msg', hreach⟩ := ih
    have hbody := iteration_of_header hread msg'
    rw [takeField_inside msg' (lt_of_le_of_lt hle hdata) hle] at hbody
    exact ⟨_, hreach.tail (more_of_header hread msg') hbody⟩

/-- The loop is at an index at which a header is met. -/
def AtHeader (R : FieldReader ε M) (data : List UInt8) (c : Cursor M) : Prop :=
  ∃ i, R.HeaderAt data i ∧ c.idx = (i : Nat)

section

variable (hm : R.Measured data)

include hm

theorem atHeader_step (hat : R.AtHeader data c) (hmore : More data c)
    (hbody : R.iteration data c = .ok d) :
    R.AtHeader data d ∧ (data.length - d.idx).toNat < (data.length - c.idx).toNat := by
  obtain ⟨i, hi, hidx⟩ := hat
  obtain ⟨i', h, _, hread, -⟩ := iteration_ok hbody
  obtain rfl : i' = i := by omega
  obtain ⟨-, _, -, -⟩ := readHeader_ok hread
  have hfinish := h.stop_le_finish
  obtain ⟨_, msg⟩ := c
  subst hidx
  cases iteration_fits hread (hm i' h hi hread) msg with
  | inl hin =>
    obtain ⟨hle, hok⟩ := hin
    rw [hok] at hbody
    cases hbody
    refine ⟨⟨h.finish, .after hi hread hle, rfl⟩, ?_⟩
    dsimp only
    omega
  | inr hout =>
    rw [hout.2] at hbody
    cases hbody

theorem atHeader_of_reaches (hreach : Reaches (More data) (R.iteration data) ⟨0, msg⟩ c) :
    R.AtHeader data c :=
  hreach.invariant ⟨0, .first, rfl⟩ fun _ _ hat hmore hbody =>
    (atHeader_step hm hat hmore hbody).1

theorem not_panic_of_atHeader (hat : R.AtHeader data c) (p : Panic) :
    R.iteration data c ≠ .panic p := by
  obtain ⟨i, hi, hidx⟩ := hat
  obtain ⟨_, msg⟩ := c
  subst hidx
  cases hread : R.readHeader data i with
  | error =>
    rw [iteration_nat, hread]
    exact nofun
  | ok h =>
    cases iteration_fits hread (hm i h hi hread) msg with
    | inl hin =>
      rw [hin.2]
      exact nofun
    | inr hout =>
      rw [hout.2]
      exact nofun

theorem safe_of_measured : R.Safe data msg where
  returns := by
    have hend : ∃ r, loop (More data) (R.iteration data) _ ⟨0, msg⟩ = some r :=
      loop_returns (fun a b hat hmore hbody => atHeader_step hm hat hmore hbody) ⟨0, .first, rfl⟩
    obtain ⟨r, hr⟩ := hend
    refine ⟨_, r, hr, returns_iff.mpr ?_⟩
    rintro p rfl
    obtain ⟨_, hreach, -, hpanic⟩ := reaches_of_loop_panic hr
    exact not_panic_of_atHeader hm (atHeader_of_reaches hm hreach) p hpanic
  forward c c' h hreach hmore hread hbody := by
    obtain ⟨i, hi, hidx⟩ := atHeader_of_reaches hm hreach
    obtain ⟨_, msg'⟩ := c
    subst hidx
    rw [Int.toNat_natCast] at hread
    obtain ⟨-, _, -, -⟩ := readHeader_ok hread
    have hfinish := h.stop_le_finish
    cases iteration_fits hread (hm i h hi hread) msg' with
    | inl hin =>
      rw [hin.2] at hbody
      cases hbody
      exact ⟨by dsimp only; omega, by dsimp only; omega⟩
    | inr hout =>
      rw [hout.2] at hbody
      cases hbody
  allocated c h hreach _ _ hread halloc := by
    obtain ⟨i, hi, hidx⟩ := atHeader_of_reaches hm hreach
    rw [hidx, Int.toNat_natCast] at hread
    obtain ⟨hwire, -, hcheck⟩ := halloc
    have hfits := hm i h hi hread
    rw [Head.Fits, finish_of_content hwire] at hfits
    rw [int64_add_of_lt hfits] at hcheck
    omega

end

theorem measured_of_safe (hdata : data.length < 2 ^ 63) (hs : R.Safe data msg) :
    R.Measured data := by
  intro i h hat hread
  by_contra hfits
  have hcome : ∃ msg', Reaches (More data) (R.iteration data) ⟨0, msg⟩ ⟨i, msg'⟩ :=
    reaches_headerAt hdata hat
  obtain ⟨msg', hreach⟩ := hcome
  have hmore := more_of_header hread msg'
  cases takeField_unfit msg' hread hdata hfits with
  | inl hpanic =>
    -- the panic at this index is how the whole loop ends
    obtain ⟨p, hpanic⟩ := hpanic
    rw [← iteration_of_header hread msg'] at hpanic
    have hlast : loop (More data) (R.iteration data) 1 ⟨i, msg'⟩ = some (.panic p) :=
      loop_of_panic hmore hpanic
    obtain ⟨_, hend⟩ := hreach.loop_of hlast
    obtain ⟨_, _, hr, hreturns⟩ := hs.returns
    exact returns_iff.mp hreturns p (loop_unique hr hend)
  | inr hnext =>
    obtain ⟨hnext, _⟩ := hnext
    rw [← iteration_of_header hread msg'] at hnext
    obtain ⟨-, hforward⟩ := hs.forward _ _ h hreach hmore hread hnext
    dsimp only at hforward
    omega

theorem safe_iff (R : FieldReader ε M) (data : Slice) (msg : M) :
    R.Safe data.bytes msg ↔ R.Measured data.bytes :=
  ⟨measured_of_safe data.length_lt, safe_of_measured⟩

theorem not_safe_of_first (h : Head) (hdata : data.length < 2 ^ 63)
    (hread : R.readHeader data 0 = .ok h) (hfits : ¬ h.Fits) :
    ¬ R.Safe data msg := fun hs => hfits (measured_of_safe hdata hs 0 h .first hread)

theorem unmarshal_eq_none (hmore : More data (⟨0, msg⟩ : Cursor M))
    (hbody : R.iteration data ⟨0, msg⟩ = .ok ⟨0, msg⟩) (fuel : Nat) :
    R.unmarshal fuel data msg = none := by
  induction fuel with
  | zero => rfl
  | succ _ ih =>
    rw [unmarshal, loop_of_ok hmore hbody]
    exact ih

/-! ## Reading forward -/

/-- The header at an index. -/
def headAt (R : FieldReader ε M) (data : List UInt8) (i : Nat) : Option Head :=
  (R.readHeader data i).toOption

/-- An iteration over a field that ends inside the bytes. -/
abbrev FieldStep (R : FieldReader ε M) (data : List UInt8) : Nat × M → Nat × M → Prop :=
  HeadStep (R.headAt data) (fun num p m m' => m' = R.take num p m) data

theorem headAt_eq_some : R.headAt data i = some h ↔ R.readHeader data i = .ok h := by
  unfold headAt
  cases R.readHeader data i <;> simp [Except.toOption]

theorem tag_eq {num wireType : Nat} (hnum : num < 16) (hwire : wireType < 8) :
    (UInt8.ofNat (num * 8 + wireType) / 8).toNat = num ∧
      UInt8.ofNat (num * 8 + wireType) % 8 = .ofNat wireType := by
  refine ⟨?_, UInt8.toNat_inj.mp ?_⟩
  · rw [UInt8.toNat_div, UInt8.toNat_ofNat']
    change (num * 8 + wireType) % 256 / 8 = num
    omega
  · rw [UInt8.toNat_mod, UInt8.toNat_ofNat', UInt8.toNat_ofNat']
    change (num * 8 + wireType) % 256 % 8 = wireType % 256
    omega

theorem heads_headAt {schema : List Slot} {known : List Nat} (data : List UInt8)
    (hnodup : (schema.map Slot.num).Nodup) (hnums : ∀ s ∈ schema, s.num < 16)
    (hknown : ∀ w ∈ known, w < 8 ∧ .ofNat w ∈ R.wireTypes) :
    Heads schema known data (R.headAt data) where
  nodup := hnodup
  size_le _ _ hh := (readHeader_ok (headAt_eq_some.mp hh)).2.1
  found s hs wireType hmem i b rest hdrop hb := by
    obtain ⟨hlt, hsupported⟩ := hknown wireType hmem
    obtain ⟨hnum, hwire⟩ := tag_eq (hnums s hs) hlt
    rw [headAt_eq_some, readHeader, hdrop]
    dsimp only
    rw [hwire, if_pos hsupported, readVarint_single none hb, hnum, UInt8.toNat_ofNat',
      Nat.mod_eq_of_lt (by omega)]

theorem reaches_of_fieldSteps (hdata : data.length < 2 ^ 63) {a b : Nat × M}
    (hsteps : ReflTransGen (R.FieldStep data) a b) :
    Reaches (More data) (R.iteration data) ⟨a.1, a.2⟩ ⟨b.1, b.2⟩ := by
  induction hsteps with
  | refl => exact .refl
  | @tail e f _ hstep ih =>
    obtain ⟨h, hhead, hle, hidx, hmsg⟩ := hstep
    have hread := headAt_eq_some.mp hhead
    refine ih.tail (more_of_header hread e.2) ?_
    rw [iteration_of_header hread, takeField_inside _ (lt_of_le_of_lt hle hdata) hle, hidx, hmsg]

theorem unmarshal_of_script {schema : List Slot} {known : List Nat} {es : List (Slot × Piece)}
    {m m' : M} (H : Heads schema known data (R.headAt data))
    (hscript : Script schema known (fun num p m m' => m' = R.take num p m) es m m')
    (hdata : data.length < 2 ^ 63) (hbytes : data = es.flatMap fun e => e.1.encode e.2) :
    ∃ fuel c, R.unmarshal fuel data m = some (.ok c) ∧ c.msg = m' := by
  have hreach := reaches_of_fieldSteps hdata (hscript.run H hbytes)
  have hend : loop (More data) (R.iteration data) 1 ⟨data.length, m'⟩ =
      some (.ok ⟨data.length, m'⟩) := loop_of_not (lt_irrefl _)
  obtain ⟨fuel, hend⟩ := hreach.loop_of hend
  exact ⟨fuel, _, hend, rfl⟩

/-- No header met in reading order announces a length that is no `int`. -/
def Signed (R : FieldReader ε M) (data : List UInt8) : Prop :=
  ∀ i h, R.HeaderAt data i → R.readHeader data i = .ok h → h.wireType ≠ 0 → h.number < 2 ^ 63

theorem signed_of_measured (hm : R.Measured data) : R.Signed data := by
  intro i h hat hread hwire
  have hfits := hm i h hat hread
  rw [Head.Fits, finish_of_content hwire] at hfits
  omega

theorem number_lt_of_sparse {limit : Nat} (hsparse : Sparse limit data 0)
    (hread : R.readHeader data i = .ok h) : h.number < 2 ^ (7 * (limit + 1)) := by
  obtain ⟨-, -, -, _, hnumber, -⟩ := readHeader_ok hread
  exact readVarint_lt_of_sparse ((hsparse.mono (Nat.zero_le _)).drop (i + 1)) hnumber

theorem signed_of_sparse (hsparse : Sparse 8 data 0) : R.Signed data := by
  intro _ _ _ hread _
  have hlt := number_lt_of_sparse hsparse hread
  rwa [show 7 * (8 + 1) = 63 from rfl] at hlt

theorem measured_of_sparse (hdata : data.length < 2 ^ 62) (hsparse : Sparse 7 data 0) :
    R.Measured data := by
  intro _ h _ hread
  have hlt := number_lt_of_sparse hsparse hread
  obtain ⟨-, -, hstop, -⟩ := readHeader_ok hread
  rw [show 7 * (7 + 1) = 56 from rfl] at hlt
  unfold Fits finish
  split <;> omega

theorem not_loop_ok_of_neg (hneg : c.idx < 0) (fuel : Nat) :
    loop (More data) (R.iteration data) fuel c ≠ some (.ok d) := by
  intro h
  have hmore : More data c := by
    unfold More
    omega
  have hbody : R.iteration data c = .panic (.index c.idx) := if_pos hneg
  cases fuel with
  | zero => cases h
  | succ =>
    rw [loop_of_panic hmore hbody] at h
    cases h

theorem fieldSteps_of_loop (hdata : data.length < 2 ^ 63) (hsigned : R.Signed data) {fuel : Nat}
    {m : M} (hat : R.HeaderAt data i) (hi : i ≤ data.length)
    (h : loop (More data) (R.iteration data) fuel ⟨i, m⟩ = some (.ok d)) :
    ReflTransGen (R.FieldStep data) (i, m) (data.length, d.msg) := by
  induction fuel generalizing i m with
  | zero => cases h
  | succ fuel ih =>
    by_cases hmore : More data ⟨i, m⟩
    · cases hread : R.readHeader data i with
      | error e =>
        have hbody : R.iteration data ⟨i, m⟩ = .error e := by rw [iteration_nat, hread]
        rw [loop_of_error hmore hbody] at h
        cases h
      | ok head =>
        by_cases hfits : head.Fits
        · cases iteration_fits hread hfits m with
          | inl hin =>
            rw [loop_of_ok hmore hin.2] at h
            exact .head ⟨head, headAt_eq_some.mpr hread, hin.1, rfl, rfl⟩
              (ih (.after hat hread hin.1) hin.1 h)
          | inr hout =>
            rw [loop_of_error hmore hout.2] at h
            cases h
        -- the end of the field is negative
        obtain ⟨-, -, hstop, -⟩ := readHeader_ok hread
        obtain ⟨hwire, hsum⟩ := content_of_not_fits hstop hdata hfits
        have hlength := hsigned i head hat hread hwire
        cases takeField_unfit m hread hdata hfits with
        | inl hpanic =>
          obtain ⟨_, hpanic⟩ := hpanic
          rw [← iteration_of_header hread m] at hpanic
          rw [loop_of_panic hmore hpanic] at h
          cases h
        | inr hback =>
          obtain ⟨hback, -⟩ := hback
          rw [← iteration_of_header hread m] at hback
          rw [loop_of_ok hmore hback] at h
          have hneg : int64 (head.stop + int64 head.number) < 0 :=
            int64_add_neg (by omega) hlength (by omega)
          refine absurd h (not_loop_ok_of_neg ?_ fuel)
          dsimp only
          exact hneg
    · rw [loop_of_not hmore] at h
      cases h
      unfold More at hmore
      dsimp only at hmore
      obtain rfl : i = data.length := by omega
      exact .refl

end FieldReader

end HyperPax.Lib
