/-
  SetCode/RoundTrip.lean --- what `Unmarshal` makes of what `Marshal` wrote.

  Three things keep a transaction from coming back.  `protoEncodeSetCodeVarint` leaves the
  groups of a number in reverse, so a nonce, a gas limit or a length of 128 or more is read
  as its highest group.  `MarshalToSizedBuffer` writes an access tuple with an empty
  encoding, for which `Size` has counted nothing, and runs out of room.  And an empty
  authorization is not written at all.  Without these the transaction comes back.
-/
import HyperPax.SetCode.Authorization

set_option autoImplicit false

namespace HyperPax.SetCode

open Lib Relation List Outcome SetCodeTx Piece SetCodeAuthorization

/-! ## Transactions -/

section

variable {I A : Type} (ints : Codec I) (tuples : Codec A)

/-- The access tuples, empty ones included. -/
def accessSlot : Slot := ⟨9, true, false⟩

/-- The authorizations; empty ones are left out. -/
def authSlot : Slot := ⟨14, true, true⟩

/-- The fields before the authorizations. -/
def txFront : List Slot :=
  [optionalSlot 1, optionalSlot 2, optionalSlot 3, optionalSlot 4, optionalSlot 5, optionalSlot 6,
    optionalSlot 7, optionalSlot 8, accessSlot, optionalSlot 11, optionalSlot 12, optionalSlot 13]

def txSchema : List Slot :=
  [optionalSlot 1, optionalSlot 2, optionalSlot 3, optionalSlot 4, optionalSlot 5, optionalSlot 6,
    optionalSlot 7, optionalSlot 8, accessSlot, optionalSlot 11, optionalSlot 12, optionalSlot 13,
    authSlot]

namespace SetCodeTx

/-- The fields as pieces. -/
def view (tx : SetCodeTx I A) : View := fun num =>
  if num = 1 then [.bytes (intBytes ints tx.chainID)]
  else if num = 2 then [.varint tx.nonce.toNat]
  else if num = 3 then [.bytes (intBytes ints tx.gasTipCap)]
  else if num = 4 then [.bytes (intBytes ints tx.gasFeeCap)]
  else if num = 5 then [.varint tx.gasLimit.toNat]
  else if num = 6 then [.bytes tx.toAddress]
  else if num = 7 then [.bytes (intBytes ints tx.amount)]
  else if num = 8 then [.bytes tx.data]
  else if num = 9 then tx.accesses.map fun a => .bytes (tuples.marshal a)
  else if num = 11 then [.bytes tx.v]
  else if num = 12 then [.bytes tx.r]
  else if num = 13 then [.bytes tx.s]
  else if num = 14 then tx.authList.map fun a => .bytes (a.wire ints)
  else []

/-- What `MarshalToSizedBuffer` writes. -/
def wire (tx : SetCodeTx I A) : List UInt8 := Lib.wire txSchema (tx.view ints tuples)

/-- The fields in the order they are written: up to the access tuples, -/
def frontPieces (tx : SetCodeTx I A) : List (Slot × Piece) :=
  [(optionalSlot 1, .bytes (intBytes ints tx.chainID)), (optionalSlot 2, .varint tx.nonce.toNat),
    (optionalSlot 3, .bytes (intBytes ints tx.gasTipCap)),
    (optionalSlot 4, .bytes (intBytes ints tx.gasFeeCap)),
    (optionalSlot 5, .varint tx.gasLimit.toNat), (optionalSlot 6, .bytes tx.toAddress),
    (optionalSlot 7, .bytes (intBytes ints tx.amount)), (optionalSlot 8, .bytes tx.data)]

/-- the signature behind them, -/
def signaturePieces (tx : SetCodeTx I A) : List (Slot × Piece) :=
  [(optionalSlot 11, .bytes tx.v), (optionalSlot 12, .bytes tx.r), (optionalSlot 13, .bytes tx.s)]

/-- an access tuple, -/
def accessPiece (a : A) : Slot × Piece := (accessSlot, .bytes (tuples.marshal a))

/-- an authorization, -/
def authPiece (a : SetCodeAuthorization I) : Slot × Piece := (authSlot, .bytes (a.wire ints))

/-- and all together. -/
def pieces (tx : SetCodeTx I A) : List (Slot × Piece) :=
  tx.frontPieces ints ++ (tx.accesses.map (accessPiece tuples) ++
    (tx.signaturePieces ++ tx.authList.map (authPiece ints)))

theorem wire_eq (tx : SetCodeTx I A) :
    tx.wire ints tuples = (tx.pieces ints tuples).flatMap fun e => e.1.encode e.2 := by
  simp [wire, Lib.wire, txSchema, view, pieces, frontPieces, signaturePieces, accessPiece,
    authPiece, optionalSlot, accessSlot, authSlot, flatMap_map]

theorem writes_authorization (a : SetCodeAuthorization I) :
    Writes (marshalAuthorization ints a) (authSlot.encode (.bytes (a.wire ints))) := by
  have hc : 0 < a.size ints ↔ (bytes (a.wire ints)).number ≠ 0 := by
    rw [a.size_eq]
    exact Nat.pos_iff_ne_zero
  refine .optional (s := authSlot) rfl hc ?_
  have hwrites := ((a.writes ints).putInside.bind (.putVarint (a.size ints))).bind
    (.putByte 0x72)
  rw [a.size_eq] at hwrites
  simp only [a.size_eq]
  exact hwrites

theorem writes (tx : SetCodeTx I A) :
    Writes (tx.marshalToSizedBuffer ints tuples) (tx.wire ints tuples) := by
  have hauths : Writes (putEach (marshalAuthorization ints) tx.authList)
      (tx.authList.flatMap fun a => authSlot.encode (.bytes (a.wire ints))) :=
    .putEach fun a _ => writes_authorization ints a
  have haccs : Writes (putEach (marshalAccess tuples) tx.accesses)
      (tx.accesses.flatMap fun a => accessSlot.encode (.bytes (tuples.marshal a))) :=
    .putEach fun a _ => writes_marshalContent 9 (tuples.marshal a)
  have hall := hauths.bind <|
    (writes_bytesField 13 tx.s).bind <| (writes_bytesField 12 tx.r).bind <|
    (writes_bytesField 11 tx.v).bind <| haccs.bind <| (writes_bytesField 8 tx.data).bind <|
    (writes_intField ints 7 tx.amount).bind <| (writes_bytesField 6 tx.toAddress).bind <|
    (writes_numberField 5 tx.gasLimit).bind <| (writes_intField ints 4 tx.gasFeeCap).bind <|
    (writes_intField ints 3 tx.gasTipCap).bind <| (writes_numberField 2 tx.nonce).bind
    (writes_intField ints 1 tx.chainID)
  rw [tx.wire_eq]
  simp only [pieces, frontPieces, signaturePieces, accessPiece, authPiece, flatMap_cons,
    flatMap_nil, flatMap_append, flatMap_map, append_nil, append_assoc]
    at hall ⊢
  exact hall

end SetCodeTx

/-- The codecs of the integers and of the access tuples are tight in the data. -/
def TightIn (data : List UInt8) : Prop := ints.TightIn data ∧ tuples.TightIn data

theorem txDecoder_views (hints : ints.Lawful) :
    Views (txDecoder ints tuples) txSchema (SetCodeTx.view ints tuples)
      (TightIn ints tuples) where
  nodup := by decide
  single_tag := by decide
  holds tx s hs p hp := by
    simp only [txSchema, mem_cons, not_mem_nil, or_false] at hs
    obtain rfl | rfl | rfl | rfl | rfl | rfl | rfl | rfl | rfl | rfl | rfl | rfl | rfl := hs
    -- the two repeated fields are left
    any_goals
      obtain rfl := mem_singleton.mp hp
      first
      | exact rfl
      | exact ⟨_, rfl⟩
    · obtain ⟨access, -, rfl⟩ := mem_map.mp hp
      exact rfl
    · obtain ⟨auth, -, rfl⟩ := mem_map.mp hp
      exact rfl
  number num e hk := by
    have hnum : num = 2 ∨ num = 5 := by
      by_contra hne
      simp only [txDecoder] at hk
      rw [if_neg (by omega), if_neg (by omega)] at hk
      split_ifs at hk
    cases hnum with
    | inl hnum =>
      subst hnum
      refine ⟨optionalSlot 2, by decide, rfl, fun v tx => View.eq_absorb rfl ?_⟩
      intro num hne
      have hne : num ≠ 2 := hne
      simp [SetCodeTx.view, txDecoder, hne]
    | inr hnum =>
      subst hnum
      refine ⟨optionalSlot 5, by decide, rfl, fun v tx => View.eq_absorb rfl ?_⟩
      intro num hne
      have hne : num ≠ 5 := hne
      simp [SetCodeTx.view, txDecoder, hne]
  content num hk := by
    have hmem := txDecoder_kind_content ints tuples hk
    simp only [mem_cons, not_mem_nil, or_false] at hmem
    obtain rfl | rfl | rfl | rfl | rfl | rfl | rfl | rfl | rfl | rfl | rfl := hmem
    any_goals first
      | exact content_bytes (by decide) (fun _ => rfl) (fun _ _ => rfl)
          fun b tx k hne => by simp [SetCodeTx.view, hne]
      | exact content_int ints hints (fun _ h => h.1) (by decide) (fun _ => rfl) (fun _ => rfl)
          (fun _ _ => rfl) fun v tx k hne => by simp [SetCodeTx.view, hne]
    · refine ⟨accessSlot, by decide, rfl, fun bytes f _ htight hf => ?_⟩
      obtain ⟨access, haccess, hf⟩ := bind_ok.mp hf
      cases hf
      refine ⟨tuples.marshal access, ?_, (fun h => by cases h),
        fun tx => View.eq_absorb ?_ fun num hne => ?_⟩
      · exact htight.2 bytes access infix_rfl (ofExcept_eq_ok.mp haccess)
      · simp [SetCodeTx.view, accessSlot]
      · have hne : num ≠ 9 := hne
        simp [SetCodeTx.view, hne]
    · -- of an authorization only what its own decoder has kept is stored
      refine ⟨authSlot, by decide, rfl, fun bytes f hlength htight hf => ?_⟩
      obtain ⟨auth, hauth, hf⟩ := bind_ok.mp hf
      cases hf
      refine ⟨auth.wire ints, ?_, (fun h => by cases h),
        fun tx => View.eq_absorb ?_ fun num hne => ?_⟩
      · exact wire_length_le hints hlength htight.1 (mapError_eq_ok.mp hauth)
      · simp [SetCodeTx.view, authSlot]
      · have hne : num ≠ 14 := hne
        simp [SetCodeTx.view, hne]

namespace SetCodeTx

theorem size_add (tx : SetCodeTx I A) :
    tx.size ints tuples +
        (tx.accesses.map fun a => accessSlot.size (.bytes (tuples.marshal a))).sum =
      (tx.wire ints tuples).length +
        (tx.accesses.map fun a => bytesFieldSize (tuples.marshal a)).sum := by
  have hauths : (tx.authList.map fun a =>
      if 0 < a.size ints then 1 + a.size ints + protoSizeSetCodeVarint (a.size ints) else 0) =
      tx.authList.map fun a => authSlot.size (.bytes (a.wire ints)) := by
    refine map_congr_left fun a _ => ?_
    have hc : 0 < a.size ints ↔ (bytes (a.wire ints)).number ≠ 0 := by
      rw [a.size_eq]
      exact Nat.pos_iff_ne_zero
    rw [Slot.size_optional (s := authSlot) rfl hc]
    congr 1
    simp only [Piece.size, Piece.number, Piece.content, protoSizeSetCodeVarint, a.size_eq]
    omega
  rw [tx.wire_eq, size, setcodeIntFieldSize_eq ints 1, numberFieldSize_eq 2,
    setcodeIntFieldSize_eq ints 3, setcodeIntFieldSize_eq ints 4, numberFieldSize_eq 5,
    bytesFieldSize_eq 6, setcodeIntFieldSize_eq ints 7, bytesFieldSize_eq 8 tx.data,
    bytesFieldSize_eq 11 tx.v, bytesFieldSize_eq 12 tx.r, bytesFieldSize_eq 13 tx.s, hauths]
  simp only [pieces, frontPieces, signaturePieces, accessPiece, authPiece, flatMap_cons,
    flatMap_nil, flatMap_append, flatMap_map, append_nil, length_append,
    Slot.length_encode, length_flatMap]
  omega

theorem access_size (b : List UInt8) :
    accessSlot.size (.bytes b) = 1 + varintSize b.length + b.length := by
  have hwritten : ¬ accessSlot.Omitted (.bytes b) := fun h => by cases h.1
  rw [Slot.size, if_neg hwritten]
  rfl

theorem bytesFieldSize_le (b : List UInt8) : bytesFieldSize b ≤ accessSlot.size (.bytes b) := by
  rw [access_size, bytesFieldSize, protoSizeSetCodeVarint]
  split <;> omega

theorem bytesFieldSize_of_ne {b : List UInt8} (h : b ≠ []) :
    bytesFieldSize b = accessSlot.size (.bytes b) := by
  rw [access_size, bytesFieldSize, protoSizeSetCodeVarint, if_pos (length_pos_iff.mpr h)]
  omega

variable {tx : SetCodeTx I A}

section

variable (h : ∀ a ∈ tx.accesses, tuples.marshal a ≠ [])

include h

theorem size_eq : tx.size ints tuples = (tx.wire ints tuples).length := by
  have hadd := tx.size_add ints tuples
  have hsame : (tx.accesses.map fun a => bytesFieldSize (tuples.marshal a)) =
      tx.accesses.map fun a => accessSlot.size (.bytes (tuples.marshal a)) :=
    map_congr_left fun a ha => bytesFieldSize_of_ne (h a ha)
  rw [hsame] at hadd
  omega

theorem marshal_eq : tx.marshal ints tuples = some (tx.wire ints tuples) := by
  rw [marshal, size_eq ints tuples h]
  exact (tx.writes ints tuples).fill_eq

end

theorem marshal_eq_none {a : A} (ha : a ∈ tx.accesses) (h : tuples.marshal a = []) :
    tx.marshal ints tuples = none := by
  have hadd := tx.size_add ints tuples
  have hlt : (tx.accesses.map fun a => bytesFieldSize (tuples.marshal a)).sum <
      (tx.accesses.map fun a => accessSlot.size (.bytes (tuples.marshal a))).sum := by
    refine sum_lt_sum _ _ (fun b _ => bytesFieldSize_le _) ⟨a, ha, ?_⟩
    rw [h, access_size]
    exact Nat.lt_of_lt_of_le Nat.zero_lt_one (by omega)
  exact (tx.writes ints tuples).fill_eq_none (by omega)

/-- `Marshal` does not panic and produces exactly `Size()` bytes, and `Unmarshal` of them gives the
same transaction. -/
def RoundTrips (tx : SetCodeTx I A) : Prop :=
  ∃ data, tx.marshal ints tuples = some data ∧ data.length = tx.size ints tuples ∧
    unmarshal ints tuples data = .ok tx

/-- The numbers and the lengths are below 128, and neither an access tuple nor an authorization is
empty. -/
structure Short (tx : SetCodeTx I A) : Prop where
  integers : ∀ v ∈ [tx.chainID, tx.gasTipCap, tx.gasFeeCap, tx.amount],
    (intBytes ints v).length < 128
  nonce : tx.nonce < 128
  gasLimit : tx.gasLimit < 128
  contents : ∀ b ∈ [tx.toAddress, tx.data, tx.v, tx.r, tx.s], b.length < 128
  accesses : ∀ a ∈ tx.accesses, tuples.marshal a ≠ [] ∧ (tuples.marshal a).length < 128
  authorizations : ∀ a ∈ tx.authList, a.Short ints ∧ 0 < a.size ints ∧ a.size ints < 128

end SetCodeTx

section

variable {ints tuples}

theorem txBody_eq (data : List UInt8) : iteration (SetCodeTx.readField ints tuples data) data =
      iteration ((txDecoder ints tuples).readField data) data := by
  rw [SetCodeTx.readField_eq]

variable {s : Slot} {tx : SetCodeTx I A} {a : SetCodeAuthorization I}
  {before : List (SetCodeAuthorization I)}

theorem txSchema_default (tx : SetCodeTx I A) (hs : s ∈ txSchema) (hsing : s.repeated = false) :
    ∃ p, tx.view ints tuples s.num = [p] ∧ (view ints tuples .empty s.num = [p] → s.Omitted p) := by
  have hslot : ∀ s ∈ txSchema, s.repeated = false →
      s ∈ [1, 2, 3, 4, 5, 6, 7, 8, 11, 12, 13].map optionalSlot := by decide
  have hs := hslot s hs hsing
  simp only [map_cons, map_nil, mem_cons, not_mem_nil, or_false] at hs
  obtain rfl | rfl | rfl | rfl | rfl | rfl | rfl | rfl | rfl | rfl | rfl := hs <;>
    exact ⟨_, rfl, fun hsame =>
      ⟨rfl, (congrArg (fun ps => (ps.map number).sum) hsame).symm⟩⟩

theorem txSchema_repeated (hs : s ∈ txSchema) (hrep : s.repeated) :
    view ints tuples (empty : SetCodeTx I A) s.num = [] := by
  have hslot : ∀ s ∈ txSchema, s.repeated → s = accessSlot ∨ s = authSlot := by decide
  obtain rfl | rfl := hslot s hs hrep
  · rfl
  · rfl

theorem TightIn.mono {part data : List UInt8} (h : TightIn ints tuples data)
    (hpart : part <:+: data) : TightIn ints tuples part := ⟨h.1.mono hpart, h.2.mono hpart⟩

theorem comesBack_of_run (hints : ints.Lawful) (hsize : (tx.wire ints tuples).length < 2 ^ 63)
    (htight : TightIn ints tuples (tx.wire ints tuples))
    (hok : unmarshal ints tuples (tx.wire ints tuples) = .ok tx) :
    ComesBack txSchema (tx.view ints tuples) (view ints tuples) (tx.wire ints tuples)
      (FieldStep (txDecoder ints tuples) (tx.wire ints tuples)) .empty tx where
  decoder := (txDecoder_views ints tuples hints).forward hsize (fun _ => htight.mono) tx
  written := rfl
  result_eq := rfl
  repeated_empty _ hs hr := txSchema_repeated hs hr
  singular _ hs hr := txSchema_default tx hs hr
  run := fieldSteps_of_run (txBody_eq _) hsize hok

theorem store_authList {num : Nat} (hk : (txDecoder ints tuples).kind num = .content)
    {bytes : List UInt8} {f : SetCodeTx I A → SetCodeTx I A}
    (hf : (txDecoder ints tuples).store num bytes = .ok f) (tx : SetCodeTx I A) :
    tx.authList <+: (f tx).authList := by
  have hmem := txDecoder_kind_content ints tuples hk
  have hint : ∀ {g : Option I → SetCodeTx I A → SetCodeTx I A},
      (∀ v, (g v tx).authList = tx.authList) →
      (decodeInt ints bytes >>= fun v => .ok (g v)) = .ok f → tx.authList <+: (f tx).authList := by
    intro _ hg hf
    obtain ⟨_, -, hf⟩ := bind_ok.mp hf
    cases hf
    rw [hg]
  simp only [mem_cons, not_mem_nil, or_false] at hmem
  obtain rfl | rfl | rfl | rfl | rfl | rfl | rfl | rfl | rfl | rfl | rfl := hmem
  any_goals exact hint (fun _ => rfl) hf
  any_goals
    cases hf
    exact prefix_refl _
  · obtain ⟨_, -, hf⟩ := bind_ok.mp hf
    cases hf
    exact prefix_refl _
  · obtain ⟨_, -, hf⟩ := bind_ok.mp hf
    cases hf
    exact prefix_append _ _

/-- The authorizations that have been read stay. -/
theorem authList_isPrefix {data : List UInt8} {c d : Nat × SetCodeTx I A}
    (h : ReflTransGen (FieldStep (txDecoder ints tuples) data) c d) :
    c.2.authList <+: d.2.authList := by
  induction h with
  | refl => exact prefix_refl _
  | @tail e f _ hstep ih =>
    refine ih.trans ?_
    obtain ⟨h, -, -, -, hstores⟩ := hstep
    cases hp : h.piece data with
    | varint =>
      rw [hp] at hstores
      rw [hstores.2]
      unfold Decoder.withNumber
      split
      · simp only [txDecoder]
        split <;> exact prefix_refl _
      · exact prefix_refl _
    | bytes content =>
      rw [hp] at hstores
      obtain ⟨hne, _, hg, hf⟩ := hstores
      rw [hf]
      unfold Decoder.storing at hg
      cases hk : (txDecoder ints tuples).kind h.num with
      | number e => exact absurd hk (hne e)
      | other =>
        rw [hk] at hg
        cases hg
        exact prefix_refl _
      | content =>
        rw [hk] at hg
        exact store_authList hk hg e.2

theorem entries_authorization (hwritten : ∀ a ∈ tx.authList, a.wire ints ≠ [])
    {after : List (SetCodeAuthorization I)} (hsplit : tx.authList = before ++ a :: after) :
    entries txSchema (tx.view ints tuples) =
      (entries txFront (tx.view ints tuples) ++ before.map (authPiece ints)) ++
        authPiece ints a :: after.map (authPiece ints) := by
  have hauths : (tx.view ints tuples 14).filter (fun p => ¬ authSlot.Omitted p) =
      tx.authList.map fun a => .bytes (a.wire ints) := by
    refine filter_eq_self.mpr ?_
    intro _ hp
    obtain ⟨b, hb, rfl⟩ := mem_map.mp hp
    simp only [decide_eq_true_eq]
    exact fun homit => hwritten b hb (length_eq_zero_iff.mp homit.2)
  have hschema : txSchema = txFront ++ [authSlot] := rfl
  rw [hschema, entries, flatMap_append, flatMap_singleton]
  rw [show authSlot.num = 14 from rfl, hauths, hsplit, List.map_map, append_assoc]
  congr 1
  rw [map_append, map_cons]
  rfl

theorem length_authList {m : SetCodeTx I A}
    (hm : m.view ints tuples = absorbAll (entries txFront (tx.view ints tuples) ++
      before.map (authPiece ints)) (view ints tuples .empty)) :
    m.authList.length = before.length := by
  have hnone : piecesOf 14 (entries txFront (tx.view ints tuples)) = [] := by
    have hnum : ∀ s ∈ txFront, s.num ≠ 14 := by decide
    rw [piecesOf, map_eq_nil_iff, filter_eq_nil_iff]
    intro e he
    simpa using hnum e.1 (mem_entries.mp he).1
  have hbefore : (piecesOf 14 (before.map (authPiece ints))).length =
      before.length := by
    rw [piecesOf, length_map, filter_eq_self.mpr, length_map]
    intro e he
    obtain ⟨b, -, rfl⟩ := mem_map.mp he
    rfl
  have hschema : ∀ e ∈ entries txFront (tx.view ints tuples) ++
      before.map (authPiece ints), e.1 ∈ txSchema := by
    have hsub : ∀ s ∈ txFront, s ∈ txSchema := by decide
    intro e he
    rw [mem_append] at he
    cases he with
    | inl he => exact hsub e.1 (mem_entries.mp he).1
    | inr he =>
      obtain ⟨_, -, rfl⟩ := mem_map.mp he
      exact (by decide : authSlot ∈ txSchema)
  have hview := absorbAll_repeated (V := view ints tuples .empty)
    (by decide : (txSchema.map Slot.num).Nodup) (s := authSlot) (by decide) rfl hschema
  rw [← hm, txSchema_repeated (by decide) rfl, nil_append, piecesOf_append,
    show authSlot.num = 14 from rfl, hnone, nil_append] at hview
  have hlength := congrArg List.length hview
  rw [hbefore] at hlength
  rw [← hlength]
  exact (length_map _).symm

variable (hints : ints.Lawful)

include hints

theorem authorization_read {data content front back : List UInt8} (hshort : content.length < 128)
    (hsplit : data = front ++ (encode 14 (.bytes content) ++ back)) {m : SetCodeTx I A}
    {d : Nat × SetCodeTx I A} (hstep : FieldStep (txDecoder ints tuples) data (front.length, m) d) :
    ∃ a, SetCodeAuthorization.unmarshal ints content = .ok a ∧
      d.2.authList = m.authList ++ [a] := by
  obtain ⟨_, hhead, hnum, hpiece, -, -⟩ :=
    ((txDecoder_views ints tuples hints).heads data).short (s := authSlot)
      (by decide) (p := .bytes content) (wireType_mem _) hshort hsplit
  obtain ⟨_, hhead', -, -, hstores⟩ := hstep
  rw [hhead] at hhead'
  obtain rfl := Option.some.inj hhead'
  rw [hnum, hpiece] at hstores
  obtain ⟨-, _, hf, hd⟩ := hstores
  obtain ⟨a, ha, hf⟩ := bind_ok.mp hf
  cases hf
  exact ⟨a, mapError_eq_ok.mp ha, by rw [hd]⟩

theorem authorization_roundTrips (hsize : (tx.wire ints tuples).length < 2 ^ 63)
    (htight : TightIn ints tuples (tx.wire ints tuples))
    (hok : unmarshal ints tuples (tx.wire ints tuples) = .ok tx) (ha : a ∈ tx.authList) :
    a.RoundTrips ints := by
  have hback := comesBack_of_run hints hsize htight hok
  have hwritten : ∀ b ∈ tx.authList, b.wire ints ≠ [] := by
    intro _ hb hempty
    refine hback.not_omitted (s := authSlot) (by decide) rfl
      (mem_map_of_mem hb) ⟨rfl, ?_⟩
    rw [number, hempty]
    rfl
  obtain ⟨before, after, hsplit⟩ := append_of_mem ha
  have hentries : entries txSchema (tx.view ints tuples) = _ :=
    entries_authorization hwritten hsplit
  have hshort := hback.short
  rw [hentries] at hshort
  obtain ⟨_, -, hrest, hm⟩ := hback.passes hentries fun e he => hshort e (mem_append_left _ he)
  have hcount := length_authList hm
  obtain ⟨-, -, hbytes, _, hstep, hrest⟩ := hback.next hentries hrest
  obtain ⟨a', hdecoded, hadded⟩ := authorization_read hints
    (hshort (authPiece ints a) (mem_append_right _ mem_cons_self)) hbytes hstep
  -- what was decoded stays in its place
  have hgrown := authList_isPrefix hrest
  rw [hadded, hsplit] at hgrown
  obtain ⟨_, hgrown⟩ := hgrown
  rw [append_assoc] at hgrown
  obtain rfl : a' = a := (List.cons.inj (append_inj hgrown hcount).2).1
  exact ⟨_, a'.marshal_eq ints, (a'.size_eq ints).symm, hdecoded⟩

theorem SetCodeTx.short_of_roundTrips (hsize : tx.size ints tuples < 2 ^ 63)
    (htight : ∀ data, tx.marshal ints tuples = some data → TightIn ints tuples data)
    (hround : tx.RoundTrips ints tuples) : tx.Short ints tuples := by
  obtain ⟨_, hmarshal, -, hok⟩ := hround
  replace htight := htight _ hmarshal
  have haccs : ∀ a ∈ tx.accesses, tuples.marshal a ≠ [] := by
    intro a ha hempty
    rw [marshal_eq_none ints tuples ha hempty] at hmarshal
    cases hmarshal
  rw [marshal_eq ints tuples haccs] at hmarshal
  obtain rfl := Option.some.inj hmarshal
  rw [size_eq ints tuples haccs] at hsize
  have hback := comesBack_of_run hints hsize htight hok
  have hfield : ∀ num p, optionalSlot num ∈ txSchema → tx.view ints tuples num = [p] → p.Short :=
    fun num p hs hp => hback.piece_short (s := optionalSlot num) hs (by
      rw [show (optionalSlot num).num = num from rfl, hp]
      exact mem_cons_self)
  refine ⟨?_, ?_, ?_, ?_, ?_, ?_⟩
  · intro _ hv
    simp only [mem_cons, not_mem_nil, or_false] at hv
    obtain rfl | rfl | rfl | rfl := hv
    · exact hfield 1 _ (by decide) rfl
    · exact hfield 3 _ (by decide) rfl
    · exact hfield 4 _ (by decide) rfl
    · exact hfield 7 _ (by decide) rfl
  · exact UInt64.lt_iff_toNat_lt.mpr (hfield 2 _ (by decide) rfl)
  · exact UInt64.lt_iff_toNat_lt.mpr (hfield 5 _ (by decide) rfl)
  · intro _ hb
    simp only [mem_cons, not_mem_nil, or_false] at hb
    obtain rfl | rfl | rfl | rfl | rfl := hb
    · exact hfield 6 _ (by decide) rfl
    · exact hfield 8 _ (by decide) rfl
    · exact hfield 11 _ (by decide) rfl
    · exact hfield 12 _ (by decide) rfl
    · exact hfield 13 _ (by decide) rfl
  · intro a ha
    exact ⟨haccs a ha, hback.piece_short (s := accessSlot) (by decide)
      (p := .bytes (tuples.marshal a)) (mem_map_of_mem ha)⟩
  · intro a ha
    have hmem : .bytes (a.wire ints) ∈ tx.view ints tuples authSlot.num :=
      mem_map_of_mem ha
    have hsmall : (a.wire ints).length < 128 :=
      hback.piece_short (s := authSlot) (by decide) hmem
    have hpos : (a.wire ints).length ≠ 0 := fun hzero =>
      hback.not_omitted (s := authSlot) (by decide) rfl hmem ⟨rfl, hzero⟩
    rw [a.size_eq]
    refine ⟨?_, by omega, hsmall⟩
    have hinside : a.wire ints <:+: tx.wire ints tuples :=
      content_isInfix_wire (e := authPiece ints a)
        (mem_entries.mpr ⟨(by decide : authSlot ∈ txSchema), hmem, fun homit => hpos homit.2⟩)
    exact SetCodeAuthorization.short_of_roundTrips hints (by rw [a.size_eq]; omega)
      (htight.1.mono hinside) (authorization_roundTrips hints hsize htight hok ha)

variable (hdigits : ∀ v, ints.marshal v ≠ [])

include hdigits

/-- The decoder reads the fields of a short transaction in their order. -/
theorem txScript (htuples : tuples.Lawful) (hshort : tx.Short ints tuples) :
    Script txSchema [0, 2] (txDecoder ints tuples).Stores (tx.pieces ints tuples) .empty tx := by
  have hint := hshort.integers
  have hbytes := hshort.contents
  have hfront : Script txSchema [0, 2] (txDecoder ints tuples).Stores (tx.frontPieces ints) .empty
      { tx with accesses := [], v := [], r := [], s := [], authList := [] } := by
    refine script_int ints hints hdigits (f := fun v m => { m with chainID := v })
      (by decide) rfl (fun _ => rfl) (hint _ (by simp)) rfl ?_
    refine script_number (by decide) rfl hshort.nonce rfl ?_
    refine script_int ints hints hdigits (f := fun v m => { m with gasTipCap := v })
      (by decide) rfl (fun _ => rfl) (hint _ (by simp)) rfl ?_
    refine script_int ints hints hdigits (f := fun v m => { m with gasFeeCap := v })
      (by decide) rfl (fun _ => rfl) (hint _ (by simp)) rfl ?_
    refine script_number (by decide) rfl hshort.gasLimit rfl ?_
    refine script_bytes (by decide) rfl (fun _ => rfl) (hbytes _ (by simp)) rfl ?_
    refine script_int ints hints hdigits (f := fun v m => { m with amount := v })
      (by decide) rfl (fun _ => rfl) (hint _ (by simp)) rfl ?_
    exact script_bytes (by decide) rfl (fun _ => rfl) (hbytes _ (by simp)) rfl .nil
  have haccs : Script txSchema [0, 2] (txDecoder ints tuples).Stores
      (tx.accesses.map (accessPiece tuples))
      { tx with accesses := [], v := [], r := [], s := [], authList := [] }
      { tx with v := [], r := [], s := [], authList := [] } := by
    refine Script.each (p := accessPiece tuples) (f := fun accesses : List A =>
      { tx with accesses := accesses, v := [], r := [], s := [], authList := [] })
      (fun a ha => ⟨(by decide : accessSlot ∈ txSchema), wireType_mem _, (hshort.accesses a ha).2,
        (fun h => by cases h.1), fun before => ?_⟩) []
    have hstore : (txDecoder ints tuples).store 9 (tuples.marshal a) =
        .ok fun tx => { tx with accesses := tx.accesses ++ [a] } := by
      have hdecode := htuples a
      simp [txDecoder, hdecode, Outcome.ofExcept]
    exact stores_bytes rfl hstore
  have hsig : Script txSchema [0, 2] (txDecoder ints tuples).Stores tx.signaturePieces
      { tx with v := [], r := [], s := [], authList := [] } { tx with authList := [] } := by
    refine script_bytes (by decide) rfl (fun _ => rfl) (hbytes _ (by simp)) rfl ?_
    refine script_bytes (by decide) rfl (fun _ => rfl) (hbytes _ (by simp)) rfl ?_
    exact script_bytes (by decide) rfl (fun _ => rfl) (hbytes _ (by simp)) rfl .nil
  have hauths : Script txSchema [0, 2] (txDecoder ints tuples).Stores
      (tx.authList.map (authPiece ints)) { tx with authList := [] } tx := by
    refine Script.each (p := authPiece ints)
      (f := fun auths : List (SetCodeAuthorization I) => { tx with authList := auths })
      (fun a ha => ?_) []
    obtain ⟨hown, hpos, hsmall⟩ := hshort.authorizations a ha
    rw [a.size_eq] at hpos hsmall
    refine ⟨(by decide : authSlot ∈ txSchema), wireType_mem _, hsmall,
      fun homit => absurd homit.2 (Nat.pos_iff_ne_zero.mp hpos), fun before => ?_⟩
    have hstore : (txDecoder ints tuples).store 14 (a.wire ints) =
        .ok fun tx => { tx with authList := tx.authList ++ [a] } := by
      have hdecode := unmarshal_wire hints hdigits (by omega) hown
      simp [txDecoder, hdecode, Outcome.mapError]
    exact stores_bytes rfl hstore
  exact hfront.append (haccs.append (hsig.append hauths))

theorem SetCodeTx.roundTrips_of_short (htuples : tuples.Lawful)
    (hsize : tx.size ints tuples < 2 ^ 63) (hshort : tx.Short ints tuples) :
    tx.RoundTrips ints tuples := by
  have haccs : ∀ a ∈ tx.accesses, tuples.marshal a ≠ [] := fun a ha => (hshort.accesses a ha).1
  have hlength := size_eq ints tuples haccs
  refine ⟨_, marshal_eq ints tuples haccs, hlength.symm, ?_⟩
  rw [hlength] at hsize
  have hviews := txDecoder_views ints tuples hints
  have hsteps :=
    (txScript hints hdigits htuples hshort).run (hviews.heads _) (tx.wire_eq ints tuples)
  exact run_of_fieldSteps (txBody_eq _) hviews hsize hsteps

theorem SetCodeAuthorization.roundTrips_of_short (hsize : a.size ints < 2 ^ 63)
    (hshort : a.Short ints) : a.RoundTrips ints := by
  refine ⟨_, a.marshal_eq ints, (a.size_eq ints).symm, ?_⟩
  rw [a.size_eq] at hsize
  exact unmarshal_wire hints hdigits hsize hshort

end

/-- A transaction, and an authorization, comes back exactly when it is short.  Integers and access
tuples are read back, an integer has at least one digit, and no part of the encoding stands for a
value with a longer one. -/
theorem setCode_roundTrips_iff (hints : ints.Lawful) (hdigits : ∀ v, ints.marshal v ≠ [])
    (htuples : tuples.Lawful) (tx : SetCodeTx I A) (hsize : tx.size ints tuples < 2 ^ 63)
    (htight : ∀ data, tx.marshal ints tuples = some data → TightIn ints tuples data)
    (a : SetCodeAuthorization I) (hsize' : a.size ints < 2 ^ 63)
    (htight' : ∀ data, a.marshal ints = some data → ints.TightIn data) :
    (tx.RoundTrips ints tuples ↔ tx.Short ints tuples) ∧ (a.RoundTrips ints ↔ a.Short ints) :=
  ⟨⟨SetCodeTx.short_of_roundTrips hints hsize htight,
      SetCodeTx.roundTrips_of_short hints hdigits htuples hsize⟩,
    ⟨SetCodeAuthorization.short_of_roundTrips hints hsize' (htight' _ (a.marshal_eq ints)),
      SetCodeAuthorization.roundTrips_of_short hints hdigits hsize'⟩⟩

end

/-- Integers of one digit, which are also read behind a sign. -/
def digitCodec : Codec UInt8 where
  marshal digit := [digit]
  unmarshal
    | [digit] => .ok digit
    | [0x2b, digit] => .ok digit
    | _ => .error "not a digit"

/-- Access tuples without an address, with storage keys of one byte: each is the field 2. -/
def keysCodec : Codec (List UInt8) where
  marshal keys := keys.flatMap fun key => [0x12, 0x01, key]
  unmarshal := readKeys
where
  readKeys : List UInt8 → Except String (List UInt8)
    | [] => .ok []
    | 0x12 :: 0x01 :: key :: rest => (key :: ·) <$> readKeys rest
    | _ => .error "unexpected field"

theorem digitCodec_lawful : digitCodec.Lawful := fun _ => rfl

theorem digitCodec_tightIn (data : List UInt8) : digitCodec.TightIn data := by
  intro part digit _ h
  cases part with
  | nil => cases h
  | cons => exact Nat.succ_le_succ (Nat.zero_le _)

theorem keysCodec_lawful : keysCodec.Lawful := by
  intro keys
  induction keys with
  | nil => rfl
  | cons key keys ih =>
    have hrest : keysCodec.readKeys (keysCodec.marshal keys) = .ok keys := ih
    exact congrArg (Functor.map (key :: ·)) hrest

theorem keysCodec_tightIn (data : List UInt8) : keysCodec.TightIn data := by
  have hlength : ∀ part keys, keysCodec.readKeys part = .ok keys →
      (keysCodec.marshal keys).length ≤ part.length := by
    intro part
    fun_induction keysCodec.readKeys part with
    | case1 =>
      intro _ h
      cases h
      exact le_refl _
    | case2 key rest ih =>
      intro _ h
      cases hrest : keysCodec.readKeys rest with
      | error e =>
        rw [hrest] at h
        cases h
      | ok keys =>
        rw [hrest] at h
        cases h
        exact Nat.add_le_add_right (ih keys hrest) 3
    | case3 =>
      intro _ h
      cases h
  exact fun part keys _ h => hlength part keys h

/-- An authorization with every field set. -/
def usualAuthorization : SetCodeAuthorization UInt8 :=
  ⟨some 0x37, .replicate 42 0x30, 5, [1], [2, 3], [4]⟩

/-- A transaction with every field set, two access tuples and two authorizations. -/
def usualTx : SetCodeTx UInt8 (List UInt8) :=
  ⟨some 0x37, 7, some 0x31, some 0x32, 100, .replicate 42 0x30, some 0x30, [0xca, 0xfe],
    [[1, 2], [3]], [1], [2], [3], [usualAuthorization, usualAuthorization]⟩

theorem usualAuthorization_short : usualAuthorization.Short digitCodec := by
  refine ⟨?_, ?_, ?_, ?_, ?_, ?_⟩ <;> decide

theorem usualTx_roundTrips :
    usualTx.size digitCodec keysCodec = 208 ∧ usualAuthorization.size digitCodec = 59 ∧
      usualTx.RoundTrips digitCodec keysCodec ∧ usualAuthorization.RoundTrips digitCodec := by
  have hauth : usualAuthorization.size digitCodec = 59 := by decide +kernel
  have htx : usualTx.size digitCodec keysCodec = 208 := by decide +kernel
  have hboth := setCode_roundTrips_iff digitCodec keysCodec digitCodec_lawful
    (fun _ => cons_ne_nil _ _) keysCodec_lawful usualTx (by omega)
    (fun data _ => ⟨digitCodec_tightIn data, keysCodec_tightIn data⟩) usualAuthorization (by omega)
    (fun data _ => digitCodec_tightIn data)
  have hshort : usualTx.Short digitCodec keysCodec := by
    refine ⟨?_, by decide, by decide, by decide, by decide, fun a ha => ?_⟩
    · decide +kernel
    have hmem : a = usualAuthorization := by simpa [usualTx] using ha
    rw [hmem, hauth]
    exact ⟨usualAuthorization_short, by decide, by decide⟩
  exact ⟨htx, hauth, hboth.1.mpr hshort, hboth.2.mpr usualAuthorization_short⟩

/-- A transaction of nonce 128. -/
def laterTx : SetCodeTx UInt8 (List UInt8) := { empty (A := List UInt8) with nonce := 128 }

/-- A transaction with an access tuple whose encoding is empty. -/
def bareTupleTx : SetCodeTx UInt8 (List UInt8) :=
  { empty (A := List UInt8) with accesses := [[]] }

/-- A transaction with an empty authorization. -/
def bareAuthorizationTx : SetCodeTx UInt8 (List UInt8) :=
  { empty (A := List UInt8) with authList := [.empty] }

/-- An authorization of nonce 128. -/
def laterAuthorization : SetCodeAuthorization UInt8 :=
  { SetCodeAuthorization.empty with nonce := 128 }

/-- The nonce `80 01` is written as `01 80`, which does not decode; `Marshal` panics on an empty
access tuple; an empty authorization is lost. -/
theorem setCode_lost : (laterTx.marshal digitCodec keysCodec = some [0x10, 0x01, 0x80] ∧
        unmarshal digitCodec keysCodec [0x10, 0x01, 0x80] = .error .unexpectedEOF) ∧
      bareTupleTx.marshal digitCodec keysCodec = none ∧
      (bareAuthorizationTx.marshal digitCodec keysCodec = some [] ∧
        unmarshal digitCodec keysCodec [] = .ok .empty ∧ bareAuthorizationTx ≠ .empty) ∧
      laterAuthorization.marshal digitCodec = some [0x18, 0x01, 0x80] ∧
        SetCodeAuthorization.unmarshal digitCodec [0x18, 0x01, 0x80] = .error .unexpectedEOF := by
  refine ⟨⟨?_, ?_⟩, ?_, ⟨?_, ?_, ?_⟩, ?_, ?_⟩ <;> decide +kernel

end HyperPax.SetCode
