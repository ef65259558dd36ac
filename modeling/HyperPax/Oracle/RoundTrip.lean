/-
  Oracle/RoundTrip.lean --- what `Unmarshal` makes of what `Marshal` wrote.

  `Marshal` always fills its buffer exactly.  But `protoEncodeVarint` writes the groups of
  a length from the end of the buffer, so a length of two or more bytes stands in the
  buffer in reverse: the decoder takes its last group for the whole length.  Messages with
  fields below 128 bytes come back; the others do not.

  The failure is shown twice.  For any lengths with one at or above 128 there is a message
  that is lost: its long field is all zeros, and a field of the decoder starts behind a
  byte below `0x80`, whereas the zeros stand behind a continuation byte.  And every message
  with such a field is lost when its bytes are `Measured`: the decoder then reads forward
  only (`ComesBack.short`).
-/
import HyperPax.Oracle.Wire

set_option autoImplicit false

namespace HyperPax.Oracle

open Lib Relation List Option UInt8 MsgSubmitPrice Piece FieldReader

/-! ## What the encoder writes -/

variable (num : Nat) (content : List UInt8) (lengths : Nat → Nat) (g : Nat)
  {msg m : MsgSubmitPrice} {data : List UInt8} {n fuel : Nat} {d c : Cursor MsgSubmitPrice}

/-- A field that is left out if it is empty. -/
def slot (num : Nat) : Slot := ⟨num, false, true⟩

theorem bytes_written_iff : 0 < content.length ↔ (bytes content).number ≠ 0 := Nat.pos_iff_ne_zero

theorem writes_putField :
    Writes (putField (.ofNat (num * 8 + 2)) content) ((slot num).encode (.bytes content)) :=
  .optional rfl (bytes_written_iff content)
    (((Writes.putSlice content).bind (Writes.putVarint content.length)).bind (Writes.putByte _))

theorem fieldSize_eq : fieldSize content.length = ((slot num).encode (.bytes content)).length := by
  rw [Slot.length_encode, Slot.size_optional rfl (bytes_written_iff content), fieldSize]
  congr 1
  simp only [Piece.size, Piece.number, Piece.content, protoSizeVarint]
  omega

/-! ## Fields by number -/

/-- The field numbers, in the order of the wire. -/
def fieldNums : List Nat := [1, 2, 3, 4]

/-- The fields in the order of the wire. -/
def schema : List Slot := fieldNums.map slot

namespace MsgSubmitPrice

/-- The field with the given number. -/
def field (msg : MsgSubmitPrice) (num : Nat) : List UInt8 :=
  if num = 1 then msg.signer
  else if num = 2 then msg.marketId
  else if num = 3 then msg.price
  else if num = 4 then msg.confidence
  else []

theorem field_setField (m : MsgSubmitPrice) {num : Nat} (hnum : num ∈ fieldNums)
    (content : List UInt8) (k : Nat) :
    (m.setField num content).field k = if k = num then content else m.field k := by
  unfold fieldNums at hnum
  simp only [mem_cons, not_mem_nil, or_false] at hnum
  obtain rfl | rfl | rfl | rfl := hnum
  all_goals
    by_cases h : k = 1 ∨ k = 2 ∨ k = 3 ∨ k = 4
    · obtain rfl | rfl | rfl | rfl := h <;> rfl
    · simp only [not_or] at h
      simp [field, h]

theorem field_setField_of_not_mem (m : MsgSubmitPrice) {num : Nat} (hnum : num ∉ fieldNums)
    (content : List UInt8) : m.setField num content = m := by
  simp only [fieldNums, mem_cons, not_mem_nil, or_false, not_or] at hnum
  simp [setField, hnum]

@[simp] theorem field_empty (num : Nat) : empty.field num = [] := by simp [field, empty]

/-- The bytes of the given fields, one after another. -/
def encoding (msg : MsgSubmitPrice) (nums : List Nat) : List UInt8 :=
  nums.flatMap fun num => (slot num).encode (.bytes (msg.field num))

/-- The bytes of a message. -/
def wire (msg : MsgSubmitPrice) : List UInt8 := msg.encoding fieldNums

/-- The fields as pieces. -/
def view (msg : MsgSubmitPrice) : View := fun num =>
  if num ∈ fieldNums then [.bytes (msg.field num)] else []

theorem wire_eq_view (msg : MsgSubmitPrice) : msg.wire = Lib.wire schema msg.view := by
  simp [wire, encoding, Lib.wire, schema, view, fieldNums, slot]

theorem wire_eq (msg : MsgSubmitPrice) :
    msg.wire = (slot 1).encode (.bytes msg.signer) ++ ((slot 2).encode (.bytes msg.marketId) ++
      ((slot 3).encode (.bytes msg.price) ++ (slot 4).encode (.bytes msg.confidence))) := by
  simp only [wire, encoding, fieldNums, flatMap_cons, flatMap_nil, append_nil]
  rfl

theorem length_wire (msg : MsgSubmitPrice) : msg.wire.length = msg.size := by
  rw [wire_eq, size, fieldSize_eq 1, fieldSize_eq 2, fieldSize_eq 3, fieldSize_eq 4]
  simp only [length_append]
  omega

theorem marshal_eq (msg : MsgSubmitPrice) : msg.marshal = some msg.wire := by
  have hwrites := (((writes_putField 4 msg.confidence).bind (writes_putField 3 msg.price)).bind
    (writes_putField 2 msg.marketId)).bind (writes_putField 1 msg.signer)
  rw [← msg.wire_eq] at hwrites
  rw [marshal, ← msg.length_wire]
  exact hwrites.fill_eq

end MsgSubmitPrice

/-! ## Reading a field back -/

theorem take_bytes (m : MsgSubmitPrice) :
    decoder.take num (.bytes content) m = m.setField num content := by
  unfold FieldReader.take
  dsimp only
  split
  · rename_i hskip
    refine (m.field_setField_of_not_mem (fun hmem => ?_) content).symm
    exact (by decide : ∀ num ∈ fieldNums, decoder.use num ≠ .skip) num hmem hskip
  · rfl

theorem heads_decoder (data : List UInt8) : Heads schema [2] data (decoder.headAt data) :=
  heads_headAt data (by decide) (by decide) (by decide)

theorem view_of_mem (m : MsgSubmitPrice) {num : Nat} (hnum : num ∈ fieldNums) :
    m.view num = [.bytes (m.field num)] := if_pos hnum

theorem takes_view (T : MsgSubmitPrice) (data : List UInt8) :
    Takes schema T.view view data fun num p m m' => m' = decoder.take num p m := by
  rintro num p m _ - rfl
  cases p with
  | varint v =>
    refine .inl ⟨rfl, fun s hs hnum q hq => ?_⟩
    obtain ⟨k, hk, rfl⟩ := mem_map.mp hs
    obtain rfl : k = num := hnum
    rw [view_of_mem T hk] at hq
    rw [mem_singleton.mp hq]
    exact (by decide : 2 ≠ 0)
  | bytes content =>
    rw [take_bytes]
    by_cases hk : num ∈ fieldNums
    · refine .inr ⟨slot num, mem_map_of_mem hk, rfl, .bytes content,
        View.eq_absorb ?_ fun k hne => ?_, le_refl _, le_refl _, fun _ _ _ => rfl⟩
      · refine (view_of_mem _ hk).trans ?_
        rw [m.field_setField hk, if_pos rfl]
        rfl
      · have hne : k ≠ num := hne
        unfold view
        rw [m.field_setField hk, if_neg hne]
    · refine .inl ⟨by rw [m.field_setField_of_not_mem hk], fun s hs hnum => ?_⟩
      obtain ⟨k, hmem, rfl⟩ := mem_map.mp hs
      obtain rfl : k = num := hnum
      exact absurd hmem hk

/-- `Marshal` succeeds with exactly `Size()` bytes, and `Unmarshal` of them into an empty message
gives the message back. -/
def RoundTrips (msg : MsgSubmitPrice) : Prop :=
  ∃ data, msg.marshal = some data ∧ data.length = msg.size ∧
    ∃ fuel c, decoder.unmarshal fuel data .empty = some (.ok c) ∧ c.msg = msg

/-- Every field takes less than 128 bytes. -/
def MsgSubmitPrice.Short (msg : MsgSubmitPrice) : Prop :=
  ∀ num ∈ fieldNums, (msg.field num).length < 128

theorem script_of_short (hshort : msg.Short) :
    Script schema [2] (fun num p m m' => m' = decoder.take num p m)
      (fieldNums.map fun num => (slot num, .bytes (msg.field num))) .empty msg := by
  have hfield : ∀ num ∈ fieldNums, ∀ {es : List (Slot × Piece)} {m m' : MsgSubmitPrice},
      m.setField num [] = m →
      Script schema [2] (fun num p m m' => m' = decoder.take num p m) es
        (m.setField num (msg.field num)) m' →
      Script schema [2] (fun num p m m' => m' = decoder.take num p m)
        ((slot num, .bytes (msg.field num)) :: es) m m' := by
    intro num hnum _ _ _ hempty hrest
    refine .cons (mem_map_of_mem hnum) (by simp [wireType]) (hshort num hnum)
      (take_bytes _ _ _).symm (fun homit => ?_) hrest
    rw [length_eq_zero_iff.mp homit.2]
    exact hempty
  refine hfield 1 (by decide) rfl ?_
  refine hfield 2 (by decide) rfl ?_
  refine hfield 3 (by decide) rfl ?_
  exact hfield 4 (by decide) rfl .nil

theorem roundTrips_of_short (hshort : msg.Short) : RoundTrips msg := by
  have hsmall : msg.wire.length < 2 ^ 63 := by
    have hle : ∀ n, n < 128 → fieldSize n ≤ 129 := by
      intro n hn
      rw [fieldSize, protoSizeVarint, varintSize_of_lt hn]
      split <;> omega
    have h₁ := hle _ (hshort 1 (by decide))
    have h₂ := hle _ (hshort 2 (by decide))
    have h₃ := hle _ (hshort 3 (by decide))
    have h₄ := hle _ (hshort 4 (by decide))
    rw [msg.length_wire, MsgSubmitPrice.size]
    exact lt_of_le_of_lt (Nat.add_le_add (Nat.add_le_add (Nat.add_le_add h₁ h₂) h₃) h₄) (by decide)
  refine ⟨msg.wire, msg.marshal_eq, msg.length_wire, ?_⟩
  refine unmarshal_of_script (heads_decoder msg.wire) (script_of_short hshort) hsmall ?_
  rw [flatMap_map]
  rfl

/-! ## A long field of zeros is lost -/

theorem toNat_group (h : n < 128) : (UInt8.ofNat (n + 128)).toNat = n + 128 := by
  rw [toNat_ofNat']
  omega

theorem zero_not_mem_varintBytes {v : Nat} (h : 0 < v) : (0 : UInt8) ∉ varintBytes v := by
  induction v using Nat.strongRecOn with
  | ind v ih =>
    intro hmem
    by_cases hle : 0x80 ≤ v
    · rw [varintBytes_of_le hle, mem_cons] at hmem
      cases hmem with
      | inl hzero =>
        have htoNat := toNat_group (n := v % 128) (by omega)
        rw [← hzero, UInt8.toNat_zero] at htoNat
        omega
      | inr hrest => exact ih (v / 128) (by omega) (by omega) hrest
    · rw [varintBytes_of_lt (not_le.mp hle), mem_singleton] at hmem
      have htoNat := congrArg UInt8.toNat hmem
      rw [UInt8.toNat_zero, UInt8.toNat_ofNat'] at htoNat
      omega

theorem encode_of_ne {content : List UInt8} (h : content ≠ []) :
    (slot num).encode (.bytes content) =
      .ofNat (num * 8 + 2) :: ((varintBytes content.length).reverse ++ content) :=
  if_neg fun homit => h (length_eq_zero_iff.mp homit.2)

/-- A stored field is empty, or it stands in the bytes behind a byte below `0x80`. -/
def Sliced (data content : List UInt8) : Prop :=
  content = [] ∨ ∃ pre b post, data = pre ++ b :: (content ++ post) ∧ b < 0x80

theorem takeField_msg {h : Head} (htake : decoder.takeField data msg h = .ok d) :
    d.msg = msg ∨ ∃ n, d.msg = msg.setField h.num ((data.drop h.stop).take n) := by
  unfold takeField at htake
  split at htake
  · cases htake
    exact .inl rfl
  dsimp only at htake
  generalize int64 (h.stop + int64 h.number) = stop at htake
  split at htake
  · cases htake
  obtain ⟨m, hstore, hd⟩ := Outcome.bind_ok.mp htake
  cases hd
  have hslice : ∀ {content : List UInt8},
      (sliceOf data h.stop stop : Outcome WireError (List UInt8)) = .ok content →
        ∃ n, content = (data.drop h.stop).take n := by
    intro _ hcontent
    unfold sliceOf at hcontent
    split at hcontent
    · cases hcontent
      exact ⟨_, rfl⟩
    · cases hcontent
  unfold store at hstore
  split at hstore
  · cases hstore
    exact .inl rfl
  · obtain ⟨_, hcontent, hm⟩ := Outcome.bind_ok.mp hstore
    obtain ⟨n, rfl⟩ := hslice hcontent
    cases hm
    exact .inr ⟨n, rfl⟩
  · obtain ⟨_, -, hstore⟩ := Outcome.bind_ok.mp hstore
    obtain ⟨_, hcontent, hm⟩ := Outcome.bind_ok.mp hstore
    obtain ⟨n, rfl⟩ := hslice hcontent
    cases hm
    exact .inr ⟨n, rfl⟩

theorem sliced_drop {h : Head} {i : Nat} (hread : decoder.readHeader data i = .ok h) (n : Nat) :
    Sliced data ((data.drop h.stop).take n) := by
  obtain ⟨-, -, -, k, hnumber, hstop⟩ := readHeader_ok hread
  obtain ⟨-, -, pre, b, post, hdrop, rfl, hb, -⟩ :=
    readVarint_ok_aux (by decide) (by decide) hnumber
  have hpost : data.drop h.stop = post := by
    rw [hstop, ← drop_drop, hdrop, ← drop_drop, drop_left]
    rfl
  refine .inr ⟨data.take (i + 1) ++ pre, b, post.drop n, ?_, hb⟩
  rw [hpost, take_append_drop, append_assoc, ← hdrop, take_append_drop]

theorem sliced_next (hbody : decoder.iteration data c = .ok d)
    (hc : ∀ k, Sliced data (c.msg.field k)) (k : Nat) : Sliced data (d.msg.field k) := by
  obtain ⟨_, h, -, hread, htake⟩ := iteration_ok hbody
  cases takeField_msg htake with
  | inl hsame =>
    rw [hsame]
    exact hc k
  | inr hset =>
    obtain ⟨n, hset⟩ := hset
    rw [hset]
    by_cases hnum : h.num ∈ fieldNums
    · rw [field_setField _ hnum]
      split
      · exact sliced_drop hread n
      · exact hc k
    · rw [field_setField_of_not_mem _ hnum]
      exact hc k

theorem sliced_of_unmarshal (h : decoder.unmarshal fuel data .empty = some (.ok c)) (k : Nat) :
    Sliced data (c.msg.field k) := by
  obtain ⟨hreach, -⟩ := reaches_of_loop_ok h
  refine hreach.invariant (P := fun c => ∀ k, Sliced data (c.msg.field k)) ?_ ?_ k
  · intro k
    simp [Sliced]
  · exact fun _ _ hc _ hbody => sliced_next hbody hc

theorem zeros_unique {pre post pre' post' : List UInt8} (hn : 0 < n) (hpre : (0 : UInt8) ∉ pre)
    (hpost : (0 : UInt8) ∉ post)
    (h : pre ++ (.replicate n 0 ++ post) = pre' ++ (.replicate n 0 ++ post')) : pre = pre' := by
  have hcount := congrArg (count 0) h
  simp only [count_append, count_replicate_self, count_eq_zero_of_not_mem hpre,
    count_eq_zero_of_not_mem hpost] at hcount
  have hpre' : (0 : UInt8) ∉ pre' := count_eq_zero.mp (by omega)
  have htake : ∀ l l' : List UInt8, 0 ∉ l →
      (l ++ (.replicate n 0 ++ l')).takeWhile (· ≠ 0) = l := by
    intro l l' hl
    obtain ⟨k, rfl⟩ := Nat.exists_eq_add_one.mpr hn
    rw [takeWhile_append_of_pos fun _ hb => decide_eq_true (ne_of_mem_of_not_mem hb hl)]
    simp [replicate_succ]
  rw [← htake pre post hpre, h, htake pre' post' hpre']

/-- The message with the given lengths whose field `g` is all zeros and whose others are all
ones. -/
def filled (lengths : Nat → Nat) (g : Nat) : MsgSubmitPrice :=
  let fill (k : Nat) : List UInt8 := .replicate (lengths k) (if k = g then 0 else 1)
  ⟨fill 1, fill 2, fill 3, fill 4⟩

theorem field_filled {k : Nat} (hk : k ∈ fieldNums) :
    (filled lengths g).field k = .replicate (lengths k) (if k = g then 0 else 1) := by
  simp only [fieldNums, mem_cons, not_mem_nil, or_false] at hk
  obtain rfl | rfl | rfl | rfl := hk <;> rfl

theorem zero_not_mem_encoding (nums : List Nat) (hnums : ∀ k ∈ nums, k ∈ fieldNums ∧ k ≠ g) :
    (0 : UInt8) ∉ (filled lengths g).encoding nums := by
  have htag : ∀ k ∈ fieldNums, (0 : UInt8) ≠ .ofNat (k * 8 + 2) := by decide +kernel
  intro hmem
  obtain ⟨k, hk, hzero⟩ := mem_flatMap.mp hmem
  obtain ⟨hfield, hne⟩ := hnums k hk
  rw [field_filled _ _ hfield, if_neg hne] at hzero
  by_cases hempty : lengths k = 0
  · rw [hempty] at hzero
    cases hzero
  have hpos : 0 < lengths k := Nat.pos_of_ne_zero hempty
  have hne : .replicate (lengths k) (1 : UInt8) ≠ [] := by simpa using hempty
  rw [encode_of_ne k hne, length_replicate, mem_cons, mem_append,
    mem_reverse, mem_replicate] at hzero
  rcases hzero with htag' | hlength | ⟨-, hone⟩
  · exact htag k hfield htag'
  · exact zero_not_mem_varintBytes hpos hlength
  · exact absurd hone (by decide)

/-- A long field of zeros does not come back. -/
theorem not_roundTrips_filled {g : Nat} (hg : g ∈ fieldNums) (hlong : 128 ≤ lengths g) :
    ¬ RoundTrips (filled lengths g) := by
  rintro ⟨_, hmarshal, -, _, c, hunmarshal, hc⟩
  rw [marshal_eq] at hmarshal
  obtain rfl := Option.some.inj hmarshal
  have hzeros : (filled lengths g).field g = .replicate (lengths g) 0 := by
    rw [field_filled _ _ hg, if_pos rfl]
  have hne : (filled lengths g).field g ≠ [] := by
    rw [hzeros]
    intro h
    have hlen := congrArg List.length h
    rw [length_replicate, length_nil] at hlen
    omega
  obtain ⟨before, after, hsplit⟩ := append_of_mem hg
  have hnodup : (before ++ g :: after).Nodup := hsplit ▸ (by decide : fieldNums.Nodup)
  have hother : ∀ k ∈ before ++ after, k ∈ fieldNums ∧ k ≠ g := by
    intro k hk
    have hmem : k ∈ fieldNums := by
      rw [hsplit]
      simp only [mem_append, mem_cons] at hk ⊢
      tauto
    refine ⟨hmem, ?_⟩
    rintro rfl
    exact (nodup_middle.mp hnodup).notMem hk
  -- the zeros stand behind the first group of their length
  have hwire : (filled lengths g).wire =
      ((filled lengths g).encoding before ++
        .ofNat (g * 8 + 2) :: (varintBytes (lengths g / 128)).reverse) ++
        .ofNat (lengths g % 128 + 128) :: (.replicate (lengths g) 0 ++
          (filled lengths g).encoding after) := by
    have hfield : (slot g).encode (.bytes ((filled lengths g).field g)) =
        .ofNat (g * 8 + 2) ::
          ((varintBytes (lengths g)).reverse ++ .replicate (lengths g) 0) := by
      rw [encode_of_ne g hne, hzeros, length_replicate]
    rw [MsgSubmitPrice.wire, hsplit, MsgSubmitPrice.encoding, flatMap_append,
      flatMap_cons, hfield, varintBytes_of_le hlong, reverse_cons]
    simp [encoding]
  have hsliced := sliced_of_unmarshal hunmarshal g
  rw [hc] at hsliced
  obtain ⟨pre, b, _, hdata, hb⟩ := hsliced.resolve_left hne
  have hpre : (0 : UInt8) ∉ (filled lengths g).encoding before ++
      .ofNat (g * 8 + 2) :: (varintBytes (lengths g / 128)).reverse ++
        [.ofNat (lengths g % 128 + 128)] := by
    have htag : ∀ k ∈ fieldNums, (0 : UInt8) ≠ .ofNat (k * 8 + 2) := by decide +kernel
    have hbefore := zero_not_mem_encoding lengths g before
      fun k hk => hother k (mem_append_left _ hk)
    have hvarint := zero_not_mem_varintBytes (v := lengths g) (by omega)
    rw [varintBytes_of_le hlong, mem_cons, not_or] at hvarint
    simp only [mem_append, mem_cons, mem_reverse, not_mem_nil, or_false, not_or]
    exact ⟨⟨hbefore, htag g hg, hvarint.2⟩, hvarint.1⟩
  have hpost := zero_not_mem_encoding lengths g after
    fun k hk => hother k (mem_append_right _ hk)
  rw [hwire, hzeros] at hdata
  have hpos : 0 < lengths g := by omega
  rw [append_cons, append_cons pre b] at hdata
  have hend := zeros_unique hpos hpre hpost hdata
  have hlast := (append_inj' hend rfl).2
  rw [List.cons.injEq] at hlast
  rw [← hlast.1, lt_iff_toNat_lt, toNat_group (Nat.mod_lt _ (by decide))] at hb
  have hbound : UInt8.toNat 0x80 = 128 := rfl
  omega

/-! ## Measured bytes with a long field are lost -/

theorem short_of_roundTrips (hdata : msg.wire.length < 2 ^ 63)
    (hmeas : decoder.Measured msg.wire) (hround : RoundTrips msg) : msg.Short := by
  obtain ⟨_, hmarshal, -, _, c, hunmarshal, rfl⟩ := hround
  rw [marshal_eq] at hmarshal
  obtain rfl := Option.some.inj hmarshal
  have hrun := fieldSteps_of_loop hdata (signed_of_measured hmeas) .first (Nat.zero_le _) hunmarshal
  have hback : ComesBack schema c.msg.view view c.msg.wire (decoder.FieldStep c.msg.wire) .empty
      c.msg := by
    refine ⟨(heads_decoder _).forward (takes_view _ _) ?_, c.msg.wire_eq_view, rfl, ?_, ?_, hrun⟩
    · intro s hs p hp
      obtain ⟨num, hnum, rfl⟩ := mem_map.mp hs
      rw [show (slot num).num = num from rfl, view_of_mem _ hnum] at hp
      rw [mem_singleton.mp hp]
      exact mem_cons_self
    · decide
    · intro s hs _
      obtain ⟨num, hnum, rfl⟩ := mem_map.mp hs
      refine ⟨_, view_of_mem _ hnum, fun hsame => ⟨rfl, ?_⟩⟩
      have hempty := (view_of_mem .empty hnum).symm.trans hsame
      rw [field_empty] at hempty
      exact congrArg (fun ps => (ps.map number).sum) hempty.symm
  intro num hnum
  refine hback.piece_short (s := slot num) (mem_map_of_mem hnum) (p := .bytes (c.msg.field num)) ?_
  rw [show (slot num).num = num from rfl, view_of_mem _ hnum]
  exact mem_cons_self

/-! ## Results -/

/-- All messages with fields of the given lengths come back exactly when the lengths are below
128; and a message whose bytes, a Go slice, are measured comes back exactly when its own are. -/
theorem roundTrips_iff_short (n₁ n₂ n₃ n₄ : Nat) :
    ((∀ msg : MsgSubmitPrice, msg.signer.length = n₁ → msg.marketId.length = n₂ →
        msg.price.length = n₃ → msg.confidence.length = n₄ → RoundTrips msg) ↔
      n₁ < 128 ∧ n₂ < 128 ∧ n₃ < 128 ∧ n₄ < 128) ∧
    ∀ msg data, msg.marshal = some data → data.length < 2 ^ 63 → decoder.Measured data →
      (RoundTrips msg ↔ msg.Short) := by
  refine ⟨?_, ?_⟩
  · constructor
    · intro hall
      have hfield : ∀ g ∈ fieldNums,
          (if g = 1 then n₁ else if g = 2 then n₂ else if g = 3 then n₃ else n₄) < 128 := by
        intro g hg
        by_contra hlong
        refine not_roundTrips_filled (fun g =>
          if g = 1 then n₁ else if g = 2 then n₂ else if g = 3 then n₃ else n₄) hg
          (not_lt.mp hlong) (hall _ ?_ ?_ ?_ ?_)
        all_goals exact length_replicate
      exact ⟨hfield 1 (by decide), hfield 2 (by decide), hfield 3 (by decide), hfield 4 (by decide)⟩
    · rintro ⟨h₁, h₂, h₃, h₄⟩ msg rfl rfl rfl rfl
      refine roundTrips_of_short ?_
      intro _ hnum
      simp only [fieldNums, mem_cons, not_mem_nil, or_false] at hnum
      obtain rfl | rfl | rfl | rfl := hnum
      · exact h₁
      · exact h₂
      · exact h₃
      · exact h₄
  · intro _ _ hmarshal hdata hmeas
    rw [marshal_eq] at hmarshal
    obtain rfl := Option.some.inj hmarshal
    exact ⟨short_of_roundTrips hdata hmeas, roundTrips_of_short⟩

/-- A message whose signer is 128 times the letter `a`. -/
def longSigner : MsgSubmitPrice := { empty with signer := List.replicate 128 0x61 }

theorem wire_longSigner : longSigner.wire = 0x0a :: 0x01 :: 0x80 :: .replicate 128 0x61 := by
  have hvarint : varintBytes 128 = [0x80, 0x01] := by
    rw [varintBytes_of_le (by decide), varintBytes_of_lt (by decide)]
    rfl
  rw [wire_eq]
  simp [longSigner, empty, Slot.encode, Slot.Omitted, slot, encode, number, content, wireType,
    hvarint]

/-- A message with fields of 42, 32, 19 and 18 bytes comes back; the bytes of the one with the long
signer are measured. -/
theorem roundTrips_usual_lengths :
    RoundTrips ⟨.replicate 42 0x70, .replicate 32 0x01, .replicate 19 0x31, .replicate 18 0x39⟩ ∧
      decoder.Measured longSigner.wire ∧ (RoundTrips longSigner ↔ longSigner.Short) := by
  have hlength : longSigner.wire.length = 131 := by
    rw [wire_longSigner]
    simp
  have hmeas : decoder.Measured longSigner.wire := by
    refine measured_of_sparse (by omega) ?_
    have hletters : Sparse 7 (.replicate 128 0x61 ++ []) 0 := by
      refine .plain_append (by simp) (fun b hb => ?_) trivial
      rw [eq_of_mem_replicate hb]
      decide
    rw [append_nil] at hletters
    have hlong := hletters.append_continued (k := 7)
      (show ∀ b ∈ [(0x80 : UInt8)], ¬ b < 0x80 by simp) (by decide)
    have hall := Sparse.plain_append (show [(0x0a : UInt8), 0x01] ≠ [] by decide) (by simp) hlong
    rw [wire_longSigner]
    exact hall
  refine ⟨(roundTrips_iff_short 42 32 19 18).1.mpr (by decide) _ length_replicate
    length_replicate length_replicate length_replicate, hmeas, ?_⟩
  exact (roundTrips_iff_short 0 0 0 0).2 _ _ (marshal_eq _) (by omega) hmeas

/-- Its length `80 01` is written as `01 80`; the decoder takes `80` for the signer and the first
letter for the next tag. -/
theorem longSigner_lost : longSigner.marshal = some (0x0a :: 0x01 :: 0x80 :: .replicate 128 0x61) ∧
      decoder.unmarshal 2 (0x0a :: 0x01 :: 0x80 :: .replicate 128 0x61) .empty =
        some (.error (.unexpectedWireType 1 12)) ∧ ¬ RoundTrips longSigner := by
  have hmarshal := longSigner.marshal_eq
  rw [wire_longSigner] at hmarshal
  have hlost : decoder.unmarshal 2 (0x0a :: 0x01 :: 0x80 :: .replicate 128 0x61) .empty =
      some (.error (.unexpectedWireType 1 12)) := by decide +kernel
  refine ⟨hmarshal, hlost, ?_⟩
  rintro ⟨_, hdata, -, _, _, hok, -⟩
  rw [hmarshal] at hdata
  obtain rfl := Option.some.inj hdata
  cases loop_unique hlost hok

end HyperPax.Oracle
