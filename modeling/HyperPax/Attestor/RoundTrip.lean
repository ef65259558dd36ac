/-
  Attestor/RoundTrip.lean --- what `Unmarshal` makes of what `Marshal` wrote.

  `Marshal` fills its buffer exactly.  `teeProtoEncodeVarint` leaves the groups of a number
  in reverse, so a length or a family of 128 or more is read as its highest group.  A
  message comes back if all its numbers are short; if one is not, then the decoder, as
  long as it reads forward, cannot come to the same message (`ComesBack.short`).

  Only a length of `2^63` or more takes the index back to bytes already read; whether the
  bytes hold such a length where the decoder looks for one depends on the contents.  So the
  failure is stated twice: for every message with no such length (`Signed`), and for every
  shape of messages, where the one filled with zeros has none.
-/
import HyperPax.Attestor.Wire

set_option autoImplicit false

namespace HyperPax.Attestor

open Lib Relation List UInt32 Slot Piece MsgUpdateTEERoots FieldReader

/-! ## The bytes of a message -/

def authoritySlot : Slot := ⟨1, false, true⟩
def familySlot : Slot := ⟨2, false, true⟩
def rootsSlot : Slot := ⟨3, true, false⟩

def schema : List Slot := [authoritySlot, familySlot, rootsSlot]

/-- The fields as pieces. -/
def MsgUpdateTEERoots.view (msg : MsgUpdateTEERoots) : View := fun num =>
  if num = 1 then [.bytes msg.authority]
  else if num = 2 then [.varint msg.family.toNat]
  else if num = 3 then msg.roots.map .bytes
  else []

/-- What `Marshal` writes. -/
def MsgUpdateTEERoots.wire (msg : MsgUpdateTEERoots) : List UInt8 := Lib.wire schema msg.view

/-- The fields in the order they are written. -/
def MsgUpdateTEERoots.pieces (msg : MsgUpdateTEERoots) : List (Slot × Piece) :=
  (authoritySlot, .bytes msg.authority) :: (familySlot, .varint msg.family.toNat) ::
    msg.roots.map fun r => (rootsSlot, .bytes r)

theorem MsgUpdateTEERoots.wire_eq_pieces (msg : MsgUpdateTEERoots) :
    msg.wire = msg.pieces.flatMap fun e => e.1.encode e.2 := by
  simp [wire, Lib.wire, schema, view, pieces, authoritySlot, familySlot, rootsSlot, flatMap_map]

theorem MsgUpdateTEERoots.wire_eq (msg : MsgUpdateTEERoots) :
    msg.wire = authoritySlot.encode (.bytes msg.authority) ++
      (familySlot.encode (.varint msg.family.toNat) ++
        msg.roots.flatMap fun r => encode 3 (.bytes r)) := by
  rw [msg.wire_eq_pieces, pieces, flatMap_cons, flatMap_cons, flatMap_map]
  rfl

theorem writes_putContent (num : Nat) (content : List UInt8) :
    Writes (putContent (.ofNat (num * 8 + 2)) content) (encode num (.bytes content)) :=
  ((Writes.putSlice content).bind (Writes.putVarint content.length)).bind (Writes.putByte _)

variable (family : UInt32) (authority : List UInt8) {msg : MsgUpdateTEERoots} {data : List UInt8}

theorem family_ne_zero_iff : family ≠ 0 ↔ (varint family.toNat).number ≠ 0 :=
  not_congr UInt32.toNat_inj.symm

theorem authority_pos_iff :
    0 < authority.length ↔ (bytes authority).number ≠ 0 := Nat.pos_iff_ne_zero

theorem writes_putFamily :
    Writes (putFamily family) (familySlot.encode (.varint family.toNat)) := by
  refine Writes.optional rfl (family_ne_zero_iff family) ?_
  have hwrites := (Writes.putVarint family.toNat).bind (Writes.putByte 0x10)
  rw [Piece.encode, Piece.content, append_nil]
  exact hwrites

theorem writes_putAuthority :
    Writes (putAuthority authority) (authoritySlot.encode (.bytes authority)) :=
  .optional rfl (authority_pos_iff authority) (writes_putContent 1 authority)

theorem MsgUpdateTEERoots.writes (msg : MsgUpdateTEERoots) :
    Writes msg.marshalToSizedBuffer msg.wire := by
  rw [msg.wire_eq]
  have hroots : Writes (putEach putRoot msg.roots)
      (msg.roots.flatMap fun r => encode 3 (.bytes r)) :=
    .putEach fun r _ => writes_putContent 3 r
  exact (hroots.bind (writes_putFamily msg.family)).bind (writes_putAuthority msg.authority)

theorem MsgUpdateTEERoots.size_eq (msg : MsgUpdateTEERoots) : msg.size = msg.wire.length := by
  have hauth := Slot.size_optional (s := authoritySlot) rfl (authority_pos_iff msg.authority)
  have hfamily := Slot.size_optional (s := familySlot) rfl (family_ne_zero_iff msg.family)
  have hroots : (msg.roots.map fun r => 1 + r.length + teeProtoSizeVarint r.length) =
      msg.roots.map fun r => (encode 3 (.bytes r)).length := by
    refine map_congr_left fun r _ => ?_
    simp only [Piece.length_encode, Piece.size, Piece.number, Piece.content, teeProtoSizeVarint]
    omega
  have hbytes : (bytes msg.authority).size =
      1 + msg.authority.length + teeProtoSizeVarint msg.authority.length := by
    simp only [Piece.size, Piece.number, Piece.content, teeProtoSizeVarint]
    omega
  rw [size, hroots, msg.wire_eq, length_append, length_append, Slot.length_encode,
    Slot.length_encode, length_flatMap, Nat.add_assoc, hauth, hfamily, hbytes]
  rfl

theorem MsgUpdateTEERoots.marshal_eq (msg : MsgUpdateTEERoots) : msg.marshal = some msg.wire := by
  rw [marshal, msg.size_eq]
  exact msg.writes.fill_eq

/-- `Marshal` produces exactly `Size()` bytes and `Unmarshal` of them into an empty message ends
with the same one. -/
def RoundTrips (msg : MsgUpdateTEERoots) : Prop :=
  ∃ data, msg.marshal = some data ∧ data.length = msg.size ∧
    ∃ fuel c, decoder.unmarshal fuel data .empty = some (.ok c) ∧ c.msg = msg

/-- The lengths and the family are below 128. -/
def MsgUpdateTEERoots.Short (msg : MsgUpdateTEERoots) : Prop :=
  msg.authority.length < 128 ∧ msg.family < 128 ∧ ∀ r ∈ msg.roots, r.length < 128

/-! ## Reading a field back -/

theorem heads_decoder (data : List UInt8) : Heads schema [0, 2] data (decoder.headAt data) :=
  heads_headAt data (by decide) (by decide) (by decide)

theorem wireType_of_mem_view {T : MsgUpdateTEERoots} {num : Nat} {p : Piece}
    (hp : p ∈ T.view num) : p.wireType = if num = 2 then 0 else 2 := by
  unfold view at hp
  split_ifs at hp with h₁ h₂ h₃
  · rw [mem_singleton.mp hp, h₁]
    rfl
  · rw [mem_singleton.mp hp, if_pos h₂]
    rfl
  · obtain ⟨_, -, rfl⟩ := mem_map.mp hp
    rw [if_neg h₂]
    rfl
  · cases hp

theorem takes_view (T : MsgUpdateTEERoots) (data : List UInt8) :
    Takes schema T.view view data fun num p m m' => m' = decoder.take num p m := by
  rintro num p _ _ - rfl
  cases p with
  | varint v =>
    by_cases h₂ : num = 2
    · subst h₂
      refine .inr ⟨familySlot, by decide, rfl, .varint (UInt32.ofNat v).toNat,
        View.eq_absorb rfl fun num hne => ?_, Nat.mod_le _ _, le_refl _, fun _ _ hlt => ?_⟩
      · have hne : num ≠ 2 := hne
        simp [FieldReader.take, decoder, view, hne]
      · have hlt : v < 128 := hlt
        exact congrArg Piece.varint (Nat.mod_eq_of_lt (by omega))
    · refine .inl ⟨by simp [FieldReader.take, decoder, h₂], fun s _ _ q hq => ?_⟩
      rw [wireType_of_mem_view hq, if_neg h₂]
      exact (by decide : 2 ≠ 0)
  | bytes content =>
    by_cases h₁ : num = 1
    · subst h₁
      refine .inr ⟨authoritySlot, by decide, rfl, .bytes content,
        View.eq_absorb rfl fun num hne => ?_, le_refl _, le_refl _, fun _ _ _ => rfl⟩
      have hne : num ≠ 1 := hne
      simp [FieldReader.take, decoder, view, hne]
    by_cases h₃ : num = 3
    · subst h₃
      refine .inr ⟨rootsSlot, by decide, rfl, .bytes content,
        View.eq_absorb ?_ fun num hne => ?_, le_refl _, le_refl _, fun _ _ _ => rfl⟩
      · simp [FieldReader.take, decoder, view, rootsSlot]
      · have hne : num ≠ 3 := hne
        simp [FieldReader.take, decoder, view, hne]
    · refine .inl ⟨by simp [FieldReader.take, decoder, h₁, h₃], fun s hs hnum q hq => ?_⟩
      have hslots : ∀ s ∈ schema, s.num = 1 ∨ s.num = 2 ∨ s.num = 3 := by decide
      have hslot := hslots s hs
      rw [wireType_of_mem_view hq, if_pos (by omega)]
      exact (by decide : 0 ≠ 2)

/-! ## Short messages come back -/

theorem script_of_short (hshort : msg.Short) :
    Script schema [0, 2] (fun num p m m' => m' = decoder.take num p m) msg.pieces .empty msg := by
  obtain ⟨hauth, hfamily, hroots⟩ := hshort
  have hall : Script schema [0, 2] (fun num p m m' => m' = decoder.take num p m)
      (msg.roots.map fun r => (rootsSlot, .bytes r)) { msg with roots := [] } msg :=
    .each (p := fun r => (rootsSlot, .bytes r)) (f := fun roots => { msg with roots := roots })
      (fun r hr => ⟨by simp [schema], wireType_mem _, hroots r hr, (fun h => by cases h.1),
        fun _ => rfl⟩) []
  refine .cons (by simp [schema]) (wireType_mem _) hauth rfl ?_ <|
    .cons (by simp [schema]) (wireType_mem _) (lt_iff_toNat_lt.mp hfamily) rfl ?_ ?_
  · intro homit
    have hempty : msg.authority = [] := length_eq_zero_iff.mp homit.2
    rw [hempty]
    rfl
  · intro homit
    have hzero : msg.family = 0 := UInt32.toNat_inj.mp homit.2
    rw [hzero]
    rfl
  · have hfamily : .ofNat msg.family.toNat = msg.family := UInt32.ofNat_toNat
    simpa [FieldReader.take, decoder, MsgUpdateTEERoots.empty, authoritySlot, familySlot, hfamily]
      using hall

theorem roundTrips_of_short (hsize : msg.size < 2 ^ 63) (hshort : msg.Short) : RoundTrips msg := by
  refine ⟨msg.wire, msg.marshal_eq, msg.size_eq.symm, ?_⟩
  rw [msg.size_eq] at hsize
  exact unmarshal_of_script (heads_decoder msg.wire) (script_of_short hshort) hsize
    msg.wire_eq_pieces

/-! ## Messages with a long number are lost -/

theorem short_of_roundTrips (hsize : msg.size < 2 ^ 63) (hsigned : decoder.Signed msg.wire)
    (hround : RoundTrips msg) : msg.Short := by
  obtain ⟨_, hmarshal, -, _, c, hloop, hc⟩ := hround
  rw [msg.marshal_eq] at hmarshal
  obtain rfl := Option.some.inj hmarshal
  rw [msg.size_eq] at hsize
  have hrun := fieldSteps_of_loop hsize hsigned .first (Nat.zero_le _) hloop
  have hback : ComesBack schema msg.view view msg.wire (decoder.FieldStep msg.wire)
      .empty c.msg := by
    refine ⟨(heads_decoder msg.wire).forward (takes_view msg msg.wire)
      fun _ _ p _ => p.wireType_mem, rfl, by rw [hc], ?_, ?_, hrun⟩
    · decide
    intro s hs hsing
    simp only [schema, mem_cons, not_mem_nil, or_false] at hs
    obtain rfl | rfl | rfl := hs
    · refine ⟨_, rfl, fun hsame => ⟨rfl, ?_⟩⟩
      exact congrArg (fun ps => (ps.map number).sum) hsame.symm
    · refine ⟨_, rfl, fun hsame => ⟨rfl, ?_⟩⟩
      exact congrArg (fun ps => (ps.map number).sum) hsame.symm
    · cases hsing
  refine ⟨?_, ?_, ?_⟩
  · exact hback.piece_short (s := authoritySlot) (by decide) (p := .bytes msg.authority)
      mem_cons_self
  · exact lt_iff_toNat_lt.mpr (hback.piece_short (s := familySlot) (by decide)
      (p := .varint msg.family.toNat) mem_cons_self)
  intro r hr
  exact hback.piece_short (s := rootsSlot) (by decide) (p := .bytes r)
    (mem_map_of_mem hr)

/-! ## Shapes -/

/-- Two messages with the same family and fields of the same lengths. -/
def SameShape (msg msg' : MsgUpdateTEERoots) : Prop :=
  msg'.authority.length = msg.authority.length ∧ msg'.family = msg.family ∧
    msg'.roots.map List.length = msg.roots.map List.length

section

variable {msg' : MsgUpdateTEERoots} (h : SameShape msg msg')

include h

theorem SameShape.size_eq : msg'.size = msg.size := by
  obtain ⟨hauth, hfamily, hroots⟩ := h
  have hsum : ∀ m : MsgUpdateTEERoots,
      (m.roots.map fun r => 1 + r.length + teeProtoSizeVarint r.length) =
        (m.roots.map List.length).map fun n => 1 + n + teeProtoSizeVarint n := by
    intro _
    rw [List.map_map]
    rfl
  rw [MsgUpdateTEERoots.size, MsgUpdateTEERoots.size, hsum, hsum, hauth, hfamily, hroots]

theorem SameShape.short_iff : msg'.Short ↔ msg.Short := by
  obtain ⟨hauth, hfamily, hroots⟩ := h
  have hall : ∀ m : MsgUpdateTEERoots,
      (∀ r ∈ m.roots, r.length < 128) ↔ ∀ n ∈ m.roots.map List.length, n < 128 := by
    intro _
    simp
  rw [MsgUpdateTEERoots.Short, MsgUpdateTEERoots.Short, hall, hall, hauth, hfamily, hroots]

end

/-- The message of the same shape that is filled with zeros. -/
def MsgUpdateTEERoots.zeroed (msg : MsgUpdateTEERoots) : MsgUpdateTEERoots :=
  ⟨.replicate msg.authority.length 0, msg.family, msg.roots.map fun r => .replicate r.length 0⟩

theorem sameShape_zeroed (msg : MsgUpdateTEERoots) : SameShape msg msg.zeroed := by
  refine ⟨length_replicate, rfl, ?_⟩
  rw [zeroed, List.map_map]
  refine map_congr_left fun r _ => ?_
  exact length_replicate

theorem sparse_zeroed (msg : MsgUpdateTEERoots) (hsize : msg.size < 2 ^ 63) :
    Sparse 8 msg.zeroed.wire 0 := by
  have hauth : msg.authority.length < 2 ^ 63 := by
    unfold MsgUpdateTEERoots.size at hsize
    split at hsize <;> omega
  have hroots : ∀ r ∈ msg.roots, r.length < 2 ^ 63 := by
    intro r hr
    have hle : 1 + r.length + teeProtoSizeVarint r.length ≤
        (msg.roots.map fun r => 1 + r.length + teeProtoSizeVarint r.length).sum :=
      single_le_sum (fun _ _ => Nat.zero_le _) _ (mem_map_of_mem hr)
    unfold MsgUpdateTEERoots.size at hsize
    omega
  have hzeros : ∀ n, ∀ b ∈ List.replicate n (0 : UInt8), b < 0x80 := by
    intro _ _ hb
    rw [eq_of_mem_replicate hb]
    decide
  have htail : ∀ roots : List (List UInt8), (∀ r ∈ roots, r.length < 2 ^ 63) → Sparse 8
      ((roots.map fun r => List.replicate r.length 0).flatMap fun r => encode 3 (.bytes r))
      0 := by
    intro roots
    induction roots with
    | nil => exact fun _ => trivial
    | cons r _ ih =>
      intro hlength
      rw [map_cons, flatMap_cons]
      refine sparse_encode_append (show 3 * 8 + 2 < 128 by decide) (hzeros r.length) ?_
        (ih fun r' hr' => hlength r' (mem_cons_of_mem _ hr'))
      rw [number, length_replicate]
      exact hlength r mem_cons_self
  have hfamily : msg.family.toNat < 2 ^ 63 := lt_trans (toNat_lt _) (by norm_num)
  rw [msg.zeroed.wire_eq]
  refine sparse_encode_append (by decide) (hzeros _) ?_
    (sparse_encode_append (by decide) nofun hfamily (htail msg.roots hroots))
  rw [number, zeroed, length_replicate]
  exact hauth

/-! ## Results -/

/-- All messages of a shape come back exactly when its lengths and its family are below 128; and a
message whose bytes announce no length beyond an `int` comes back exactly when its own are. -/
theorem updateTEERoots_roundTrips_iff (msg : MsgUpdateTEERoots) (hsize : msg.size < 2 ^ 63) :
    ((∀ msg', SameShape msg msg' → RoundTrips msg') ↔ msg.Short) ∧
      ∀ data, msg.marshal = some data → decoder.Signed data → (RoundTrips msg ↔ msg.Short) := by
  refine ⟨⟨?_, ?_⟩, ?_⟩
  · intro hall
    have hshape := sameShape_zeroed msg
    refine hshape.short_iff.mp (short_of_roundTrips (by rw [hshape.size_eq]; exact hsize) ?_
      (hall _ hshape))
    exact signed_of_sparse (sparse_zeroed msg hsize)
  · intro hshort _ hshape
    exact roundTrips_of_short (by rw [hshape.size_eq]; exact hsize) (hshape.short_iff.mpr hshort)
  · intro _ hmarshal hsigned
    rw [msg.marshal_eq] at hmarshal
    obtain rfl := Option.some.inj hmarshal
    exact ⟨short_of_roundTrips hsize hsigned, roundTrips_of_short hsize⟩

/-- An authority of 42 bytes and two keys of 91 bytes for the family of index one. -/
def usualRoots : MsgUpdateTEERoots :=
  ⟨.replicate 42 0x70, 1, [.replicate 91 0x30, .replicate 91 0x31]⟩

theorem usualRoots_roundTrips : usualRoots.size = 232 ∧ RoundTrips usualRoots := by
  have hsize : usualRoots.size = 232 := by
    simp [usualRoots, MsgUpdateTEERoots.size, teeProtoSizeVarint, varintSize_of_lt]
  refine ⟨hsize, (updateTEERoots_roundTrips_iff usualRoots (by omega)).1.mpr ?_ _ ⟨rfl, rfl, rfl⟩⟩
  exact ⟨by decide, by decide, by decide⟩

/-- A root of 128 bytes. -/
def longRoot : MsgUpdateTEERoots := ⟨[], 0, [.replicate 128 0x30]⟩

/-- Its length `80 01` is written as `01 80`: the decoder takes the byte `80` for the root, skips
the rest as unknown numbers and returns without an error. -/
theorem longRoot_lost : longRoot.marshal = some (0x1a :: 0x01 :: 0x80 :: .replicate 128 0x30) ∧
      decoder.unmarshal 66 (0x1a :: 0x01 :: 0x80 :: .replicate 128 0x30) .empty =
        some (.ok ⟨131, ⟨[], 0, [[0x80]]⟩⟩) ∧ ¬ RoundTrips longRoot := by
  have hbytes : varintBytes 128 = [0x80, 0x01] := by
    rw [varintBytes_of_le (by decide), varintBytes_of_lt (by decide)]
    rfl
  have hmarshal : longRoot.marshal =
      some (0x1a :: 0x01 :: 0x80 :: List.replicate 128 0x30) := by
    rw [longRoot.marshal_eq, longRoot.wire_eq]
    simp [longRoot, Slot.encode, Slot.Omitted, authoritySlot, familySlot, Piece.encode,
      number, content, wireType, hbytes]
  have hlost : decoder.unmarshal 66 (0x1a :: 0x01 :: 0x80 :: .replicate 128 0x30) .empty =
      some (.ok ⟨131, ⟨[], 0, [[0x80]]⟩⟩) := by decide +kernel
  refine ⟨hmarshal, hlost, ?_⟩
  rintro ⟨_, hdata, -, _, _, hok, hc⟩
  rw [hmarshal] at hdata
  obtain rfl := Option.some.inj hdata
  cases loop_unique hlost hok
  revert hc
  decide

end HyperPax.Attestor
