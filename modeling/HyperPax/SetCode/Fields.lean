/-
  SetCode/Fields.lean --- reading a wire format field by field.

  A decoder is compared with the fields of the message it builds (`Views`): a step reads one
  piece, and never more than its own bytes.  Last come the pieces that the fields of both
  messages are written as.
-/
import HyperPax.Lib.Reading
import HyperPax.SetCode.Decoding

set_option autoImplicit false

namespace HyperPax.SetCode

open Lib Relation List UInt64 Outcome Piece

/-! ## Decoders and views -/

/-- A field that is left out if it is zero or empty. -/
def optionalSlot (num : Nat) : Slot := ⟨num, false, true⟩

section

variable {M : Type} {dec : Decoder M} {schema : List Slot} {view : M → View} {data : List UInt8}
  {i : Nat} {m : M}

/-- The kind of a field number fits a piece. -/
def Decoder.Holds (dec : Decoder M) (num : Nat) : Piece → Prop
  | .varint _ => ∃ e, dec.kind num = .number e
  | .bytes _ => dec.kind num = .content

/-- The decoder stores pieces in the fields of a schema.  The stored piece of a content that is
`tight` may be shorter than what was read; of a singular field of a message it is the same. -/
structure Views (dec : Decoder M) (schema : List Slot) (view : M → View)
    (tight : List UInt8 → Prop) : Prop where
  nodup : (schema.map Slot.num).Nodup
  single_tag : ∀ s ∈ schema, s.num < 16
  holds : ∀ m, ∀ s ∈ schema, ∀ p ∈ view m s.num, dec.Holds s.num p
  number : ∀ num e, dec.kind num = .number e → ∃ s ∈ schema, s.num = num ∧
    ∀ v m, view (dec.setNumber num v m) = s.absorb (.varint v.toNat) (view m)
  content : ∀ num, dec.kind num = .content → ∃ s ∈ schema, s.num = num ∧
    ∀ bytes f, bytes.length < 2 ^ 63 → tight bytes → dec.store num bytes = .ok f →
      ∃ kept, kept.length ≤ bytes.length ∧
        (s.repeated = false → ∀ m, .bytes bytes ∈ view m num → kept = bytes) ∧
        ∀ m, view (f m) = s.absorb (.bytes kept) (view m)

/-- The header at an index, of a number or a content. -/
def headAt (data : List UInt8) (i : Nat) : Option Head :=
  (headerAt data i).bind fun h => if h.wireType = 0 ∨ h.wireType = 2 then some h else none

/-- What becomes of a piece that is read. -/
def Decoder.Stores (dec : Decoder M) (num : Nat) (p : Piece) (m m' : M) : Prop :=
  match p with
  | .varint v => dec.kind num ≠ .content ∧ m' = dec.withNumber ⟨num, 0, v, 0⟩ m
  | .bytes content => (∀ e, dec.kind num ≠ .number e) ∧
    ∃ f, dec.storing ⟨num, 2, content.length, 0⟩ content = .ok f ∧ m' = f m

/-- An iteration, with the index as a number. -/
abbrev FieldStep (dec : Decoder M) (data : List UInt8) : Nat × M → Nat × M → Prop :=
  HeadStep (headAt data) dec.Stores data

theorem headAt_eq_some {h : Head} : headAt data i = some h ↔ (h.wireType = 0 ∨ h.wireType = 2) ∧
      headerAt data i = some h := by
  unfold headAt
  rw [Option.bind_eq_some_iff]
  constructor
  · rintro ⟨_, hheader, hh⟩
    split at hh
    · rename_i hwire
      cases hh
      exact ⟨hwire, hheader⟩
    · cases hh
  · rintro ⟨hwire, hheader⟩
    exact ⟨_, hheader, if_pos hwire⟩

/-- A step is an iteration that goes on. -/
theorem fieldStep_iff (hdata : data.length < 2 ^ 63) (hi : i ≤ data.length) {d : Nat × M} :
    FieldStep dec data (i, m) d ↔ iteration (dec.readField data) data ⟨i, m⟩ = .ok ⟨d.1, d.2⟩ := by
  rw [Decoder.iteration_ok_iff hi hdata]
  constructor
  · rintro ⟨h, hh, hle, hidx, hstores⟩
    obtain ⟨hwire, hheader⟩ := headAt_eq_some.mp hh
    refine ⟨_, hheader, ?_⟩
    unfold Head.piece at hstores
    cases hwire with
    | inl hwire =>
      rw [Head.finish_of_number hwire] at hidx
      rw [if_pos hwire] at hstores
      obtain ⟨hk, hm⟩ := hstores
      refine .inl ⟨⟨hwire, hk⟩, ?_⟩
      rw [hidx, hm]
      rfl
    | inr hwire =>
      rw [if_neg (by omega)] at hstores
      obtain ⟨hk, f, hf, hm⟩ := hstores
      refine .inr ⟨⟨hwire, hk⟩, hle, f, hf, ?_⟩
      rw [hidx, hm]
  · rintro ⟨h, hheader, ⟨⟨hwire, hk⟩, hd⟩ | ⟨⟨hwire, hk⟩, hle, f, hf, hd⟩⟩
    · obtain ⟨hidx, hm⟩ := Cursor.mk.inj hd
      refine ⟨h, headAt_eq_some.mpr ⟨.inl hwire, hheader⟩, ?_⟩
      rw [Head.finish_of_number hwire, Head.piece, if_pos hwire]
      exact ⟨(headerAt_inside hheader).2.2, Int.ofNat.inj hidx, hk, hm⟩
    · obtain ⟨hidx, hm⟩ := Cursor.mk.inj hd
      refine ⟨h, headAt_eq_some.mpr ⟨.inr hwire, hheader⟩, hle, Int.ofNat.inj hidx, ?_⟩
      rw [Head.piece, if_neg (by omega)]
      exact ⟨hk, f, hf, hm⟩

section

variable {tight : List UInt8 → Prop} (hviews : Views dec schema view tight)

include hviews

theorem Views.heads (data : List UInt8) : Heads schema [0, 2] data (headAt data) where
  nodup := hviews.nodup
  size_le i h hh := (headerAt_inside (headAt_eq_some.mp hh).2).2.1
  found s hs wireType hwire i b rest hdrop hb := by
    have hnum := hviews.single_tag s hs
    simp only [mem_cons, not_mem_nil, or_false] at hwire
    have htag : (UInt8.ofNat (s.num * 8 + wireType)).toNat = s.num * 8 + wireType := by
      rw [UInt8.toNat_ofNat']
      omega
    have hlow : UInt8.ofNat (s.num * 8 + wireType) < 0x80 := by
      have hbound : UInt8.toNat 0x80 = 128 := rfl
      rw [UInt8.lt_iff_toNat_lt, htag]
      omega
    have hdrop' : data.drop (i + 1) = b :: rest := by
      rw [← drop_drop, hdrop]
      rfl
    refine headAt_eq_some.mpr ⟨hwire, ?_⟩
    unfold headerAt
    rw [hdrop, readVarint_single _ hlow]
    dsimp only
    rw [hdrop', readVarint_single _ hb]
    dsimp only
    rw [htag, show (s.num * 8 + wireType) / 8 = s.num by omega,
      show (s.num * 8 + wireType) % 8 = wireType by omega]

variable (hdata : data.length < 2 ^ 63) (htight : ∀ part, part <:+: data → tight part)

include hdata htight

theorem Views.takes (T : M) : Takes schema (view T) view data dec.Stores := by
  intro num p m _ hpart hstores
  -- a field that is not known is none of the message
  have hother : dec.kind num = .other → ∀ s ∈ schema, s.num = num → ∀ q ∈ view T num,
      q.wireType ≠ p.wireType := by
    rintro hk s hs rfl q hq
    have hholds := hviews.holds T s hs q hq
    cases q with
    | varint =>
      obtain ⟨e, hk'⟩ := hholds
      rw [hk'] at hk
      cases hk
    | bytes =>
      have hk' : dec.kind s.num = .content := hholds
      rw [hk'] at hk
      cases hk
  cases p with
  | varint =>
    obtain ⟨hne, rfl⟩ := hstores
    unfold Decoder.withNumber
    cases hk : dec.kind num with
    | content => exact absurd hk hne
    | other => exact .inl ⟨rfl, hother hk⟩
    | number e =>
      obtain ⟨s, hs, hnum, hview⟩ := hviews.number num e hk
      refine .inr ⟨s, hs, hnum, _, hview _ m, Nat.mod_le _ _, le_refl _, fun _ _ hlt => ?_⟩
      exact congrArg varint (toNat_ofNat_of_lt' (hlt.trans (by decide)))
  | bytes content =>
    obtain ⟨hne, f, hf, rfl⟩ := hstores
    unfold Decoder.storing at hf
    cases hk : dec.kind num with
    | number e => exact absurd hk (hne e)
    | other =>
      rw [hk] at hf
      cases hf
      exact .inl ⟨rfl, hother hk⟩
    | content =>
      rw [hk] at hf
      obtain ⟨s, hs, hnum, hstore⟩ := hviews.content num hk
      obtain ⟨kept, hkept, hexact, hview⟩ := hstore content f
        (lt_of_le_of_lt hpart.length_le hdata) (htight content hpart) hf
      exact .inr ⟨s, hs, hnum, .bytes kept, hview m, hkept, hkept,
        fun hr hmem _ => congrArg bytes (hexact hr T hmem)⟩

theorem Views.forward (T : M) : Forward schema (view T) view data (FieldStep dec data) :=
  (hviews.heads data).forward (hviews.takes hdata htight T) fun _ _ p _ => p.wireType_mem

end

variable {body : Cursor M → Outcome WireError (Cursor M)} {m' : M}
  {hforward : ∀ c d, body c = .ok d → c.idx < d.idx}

section

variable (hbody : body = iteration (dec.readField data) data)

include hbody

theorem fieldSteps_of_run (hdata : data.length < 2 ^ 63) (h : run body data hforward m = .ok m') :
    ReflTransGen (FieldStep dec data) (0, m) (data.length, m') := by
  subst hbody
  obtain ⟨c, hreach, hstop, rfl⟩ := run_eq_ok.mp h
  -- every index the loop comes to is a number inside the bytes
  have hsteps : ∃ i : Nat, i ≤ data.length ∧ c.idx = i ∧
      ReflTransGen (FieldStep dec data) (0, m) (i, c.msg) := by
    refine hreach.invariant (P := fun c : Cursor M => ∃ i : Nat, i ≤ data.length ∧ c.idx = i ∧
      ReflTransGen (FieldStep dec data) (0, m) (i, c.msg)) ⟨0, Nat.zero_le _, rfl, .refl⟩ ?_
    rintro ⟨_, m₁⟩ ⟨_, m₂⟩ ⟨i, hi, hidx, hrun⟩ - hbody
    subst hidx
    obtain ⟨j, rfl⟩ := Int.eq_ofNat_of_zero_le
      ((Int.natCast_nonneg i).trans (hforward _ _ hbody).le)
    have hstep : FieldStep dec data (i, m₁) (j, m₂) := (fieldStep_iff hdata hi).mpr hbody
    have hinside := hstep
    obtain ⟨_, -, hle, hidx, -⟩ := hinside
    exact ⟨j, hidx.trans_le hle, rfl, hrun.tail hstep⟩
  obtain ⟨i, _, _, hrun⟩ := hsteps
  unfold More at hstop
  obtain rfl : i = data.length := by omega
  exact hrun

theorem run_of_fieldSteps {tight : List UInt8 → Prop} (hviews : Views dec schema view tight)
    (hdata : data.length < 2 ^ 63)
    (h : ReflTransGen (FieldStep dec data) (0, m) (data.length, m')) :
    run body data hforward m = .ok m' := by
  subst hbody
  have hreach : ∀ c d : Nat × M, ReflTransGen (FieldStep dec data) c d →
      Reaches (More data) (iteration (dec.readField data) data) ⟨c.1, c.2⟩ ⟨d.1, d.2⟩ := by
    intro _ _ hcd
    induction hcd with
    | refl => exact .refl
    | @tail e f _ hstep ih =>
      have hlt := HeadStep.forward (hviews.heads data) hstep
      have hinside := hstep
      obtain ⟨h, -, _, _, -⟩ := hinside
      have hmore : More data (⟨e.1, e.2⟩ : Cursor M) := by
        unfold More
        dsimp only
        omega
      exact ih.tail hmore ((fieldStep_iff hdata (by omega)).mp hstep)
  refine run_eq_ok.mpr ⟨_, hreach _ _ h, ?_, rfl⟩
  exact lt_irrefl _

end

/-! ## Reading short pieces -/

variable {num : Nat} {es : List (Slot × Piece)} {m m' : M} {b : List UInt8}

theorem stores_bytes {f : M → M} (hkind : dec.kind num = .content)
    (hstore : dec.store num b = .ok f) : dec.Stores num (.bytes b) m (f m) := by
  refine ⟨?_, f, ?_, rfl⟩
  · rw [hkind]
    exact fun e h => by cases h
  unfold Decoder.storing
  rw [hkind]
  exact hstore

theorem script_bytes {set : List UInt8 → M → M} (hs : optionalSlot num ∈ schema)
    (hkind : dec.kind num = .content) (hstore : ∀ b, dec.store num b = .ok (set b))
    (hshort : b.length < 128) (hnil : set [] m = m)
    (hrest : Script schema [0, 2] dec.Stores es (set b m) m') :
    Script schema [0, 2] dec.Stores ((optionalSlot num, .bytes b) :: es) m m' := by
  refine .cons hs (wireType_mem _) hshort (stores_bytes hkind (hstore b)) (fun homit => ?_) hrest
  have hempty : b = [] := length_eq_zero_iff.mp homit.2
  rw [hempty]
  exact hnil

theorem script_number {v : UInt64} {e : Nat → WireError} (hs : optionalSlot num ∈ schema)
    (hkind : dec.kind num = .number e) (hshort : v < 128) (hzero : dec.setNumber num 0 m = m)
    (hrest : Script schema [0, 2] dec.Stores es (dec.setNumber num v m) m') :
    Script schema [0, 2] dec.Stores ((optionalSlot num, .varint v.toNat) :: es) m m' := by
  refine .cons hs (wireType_mem _) (lt_iff_toNat_lt.mp hshort) ⟨?_, ?_⟩ (fun homit => ?_) hrest
  · rw [show dec.kind (optionalSlot num).num = .number e from hkind]
    exact fun h => by cases h
  · unfold Decoder.withNumber
    dsimp only [optionalSlot]
    rw [hkind]
    rw [UInt64.ofNat_toNat]
  · have hv : v = 0 := UInt64.toNat_inj.mp homit.2
    rw [hv]
    exact hzero

end

/-! ## The bytes of the fields -/

variable {I A : Type} (ints : Codec I) {v : Option I}

/-- The encoding of an integer; nil has none. -/
def intBytes : Option I → List UInt8
  | none => []
  | some v => ints.marshal v

theorem length_intBytes_le {content : List UInt8} (htight : ints.TightIn content)
    (h : decodeInt ints content = .ok v) : (intBytes ints v).length ≤ content.length := by
  unfold decodeInt at h
  split at h
  · cases h
    exact Nat.zero_le _
  · obtain ⟨w, hw, hv⟩ := bind_ok.mp h
    cases hv
    exact htight content w infix_rfl (ofExcept_eq_ok.mp hw)

theorem intBytes_of_decodeInt (hints : ints.Lawful) {w : Option I}
    (h : decodeInt ints (intBytes ints w) = .ok v) : intBytes ints v = intBytes ints w := by
  unfold decodeInt at h
  split at h
  · rename_i hempty
    cases h
    exact (length_eq_zero_iff.mp hempty).symm
  cases w with
  | none =>
    rename_i hne
    exact absurd rfl hne
  | some w =>
    rw [intBytes, hints w] at h
    cases h
    rfl

theorem decodeInt_intBytes (hints : ints.Lawful) (hdigits : ∀ v, ints.marshal v ≠ [])
    (v : Option I) : decodeInt ints (intBytes ints v) = .ok v := by
  cases v with
  | none => rfl
  | some v =>
    unfold decodeInt intBytes
    rw [if_neg fun h => hdigits v (length_eq_zero_iff.mp h), hints v]
    rfl

theorem intBytes_eq_nil (hdigits : ∀ v, ints.marshal v ≠ []) (h : (intBytes ints v).length = 0) :
    v = none := by
  cases v with
  | none => rfl
  | some v => exact absurd (length_eq_zero_iff.mp h) (hdigits v)

section

variable {M : Type} {dec : Decoder M} {schema : List Slot} {view : M → View} {num : Nat}
  {tight : List UInt8 → Prop}

theorem content_bytes {set : List UInt8 → M → M} (hs : optionalSlot num ∈ schema)
    (hstore : ∀ b, dec.store num b = .ok (set b)) (hself : ∀ b m, view (set b m) num = [.bytes b])
    (hother : ∀ b m k, k ≠ num → view (set b m) k = view m k) :
    ∃ s ∈ schema, s.num = num ∧
      ∀ bytes f, bytes.length < 2 ^ 63 → tight bytes → dec.store num bytes = .ok f →
        ∃ kept, kept.length ≤ bytes.length ∧
          (s.repeated = false → ∀ m, .bytes bytes ∈ view m num → kept = bytes) ∧
          ∀ m, view (f m) = s.absorb (.bytes kept) (view m) := by
  refine ⟨optionalSlot num, hs, rfl, fun bytes f _ _ hf => ?_⟩
  rw [hstore] at hf
  cases hf
  exact ⟨bytes, le_refl _, fun _ _ _ => rfl, fun m => View.eq_absorb (hself _ m) (hother _ m)⟩

/-- A singular integer. -/
theorem content_int (hints : ints.Lawful) (htight : ∀ bytes, tight bytes → ints.TightIn bytes)
    {get : M → Option I} {set : Option I → M → M} (hs : optionalSlot num ∈ schema)
    (hstore : ∀ b, dec.store num b = decodeInt ints b >>= fun v => .ok (set v))
    (hview : ∀ m, view m num = [.bytes (intBytes ints (get m))])
    (hself : ∀ v m, get (set v m) = v)
    (hother : ∀ v m k, k ≠ num → view (set v m) k = view m k) :
    ∃ s ∈ schema, s.num = num ∧
      ∀ bytes f, bytes.length < 2 ^ 63 → tight bytes → dec.store num bytes = .ok f →
        ∃ kept, kept.length ≤ bytes.length ∧
          (s.repeated = false → ∀ m, .bytes bytes ∈ view m num → kept = bytes) ∧
          ∀ m, view (f m) = s.absorb (.bytes kept) (view m) := by
  refine ⟨optionalSlot num, hs, rfl, fun bytes f _ hbytes hf => ?_⟩
  rw [hstore] at hf
  obtain ⟨v, hv, hf⟩ := bind_ok.mp hf
  cases hf
  refine ⟨intBytes ints v, length_intBytes_le ints (htight bytes hbytes) hv, ?_, ?_⟩
  · intro _ m hmem
    rw [hview, mem_singleton, Piece.bytes.injEq] at hmem
    subst hmem
    exact intBytes_of_decodeInt ints hints hv
  · intro m
    refine View.eq_absorb ?_ (hother v m)
    rw [show (optionalSlot num).num = num from rfl, hview, hself]
    rfl

end

theorem script_int {M : Type} {dec : Decoder M} {schema : List Slot} {num : Nat}
    {es : List (Slot × Piece)} {m m' : M} {f : Option I → M → M} (hints : ints.Lawful)
    (hdigits : ∀ v, ints.marshal v ≠ []) (hs : optionalSlot num ∈ schema)
    (hkind : dec.kind num = .content)
    (hstore : ∀ b, dec.store num b = decodeInt ints b >>= fun v => .ok (f v))
    (hshort : (intBytes ints v).length < 128) (hnone : f none m = m)
    (hrest : Script schema [0, 2] dec.Stores es (f v m) m') :
    Script schema [0, 2] dec.Stores ((optionalSlot num, .bytes (intBytes ints v)) :: es) m m' := by
  have hread : dec.store num (intBytes ints v) = .ok (f v) := by
    rw [hstore, decodeInt_intBytes ints hints hdigits]
    rfl
  refine .cons hs (wireType_mem _) hshort (stores_bytes hkind hread) (fun homit => ?_) hrest
  rw [intBytes_eq_nil ints hdigits homit.2]
  exact hnone

variable (num : Nat) (b : List UInt8)

theorem writes_marshalContent (content : List UInt8) :
    Writes (marshalContent content (.ofNat (num * 8 + 2))) (encode num (.bytes content)) :=
  ((Writes.putSlice content).bind (Writes.putVarint content.length)).bind (Writes.putByte _)

theorem writes_bytesField : Writes (setcodeMarshalBytesField b (.ofNat (num * 8 + 2)))
      ((optionalSlot num).encode (.bytes b)) := by
  have hc : b.length ≠ 0 ↔ (bytes b).number ≠ 0 := Iff.rfl
  exact .optional (s := optionalSlot num) rfl hc (writes_marshalContent num b)

theorem writes_intField (v : Option I) :
    Writes (setcodeMarshalIntField ints v (.ofNat (num * 8 + 2)))
      ((optionalSlot num).encode (.bytes (intBytes ints v))) := by
  cases v with
  | none => exact .nothing
  | some v => exact writes_bytesField num (ints.marshal v)

theorem number_ne_zero_iff (v : UInt64) : v ≠ 0 ↔ (varint v.toNat).number ≠ 0 :=
  not_congr UInt64.toNat_inj.symm

theorem writes_numberField (v : UInt64) : Writes (marshalNumberField v (.ofNat (num * 8)))
      ((optionalSlot num).encode (.varint v.toNat)) := by
  refine Writes.optional rfl (number_ne_zero_iff v) ?_
  have hwrites := (Writes.putVarint v.toNat).bind (Writes.putByte (.ofNat (num * 8)))
  rw [encode, content, append_nil]
  exact hwrites

theorem bytesFieldSize_eq : bytesFieldSize b = (optionalSlot num).size (.bytes b) := by
  have hc : 0 < b.length ↔ (bytes b).number ≠ 0 := Nat.pos_iff_ne_zero
  rw [Slot.size_optional rfl hc, bytesFieldSize]
  congr 1
  simp only [Piece.size, Piece.number, Piece.content, protoSizeSetCodeVarint]
  omega

theorem setcodeIntFieldSize_eq (v : Option I) :
    setcodeIntFieldSize ints v 1 = (optionalSlot num).size (.bytes (intBytes ints v)) := by
  rw [← bytesFieldSize_eq]
  cases v with
  | none => rfl
  | some v =>
    unfold setcodeIntFieldSize bytesFieldSize intBytes
    dsimp only
    by_cases hempty : (ints.marshal v).length = 0
    · rw [if_pos hempty, if_neg (by omega)]
    · rw [if_neg hempty, if_pos (by omega)]

theorem numberFieldSize_eq (v : UInt64) :
    numberFieldSize v = (optionalSlot num).size (.varint v.toNat) := by
  rw [Slot.size_optional rfl (number_ne_zero_iff v), numberFieldSize]
  rfl

end HyperPax.SetCode
