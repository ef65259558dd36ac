/-
  SetCode/Authorization.lean --- when an authorization comes back.

  `protoEncodeSetCodeVarint` leaves the groups of a number in reverse, so a nonce or a length
  of 128 or more is read as its highest group.  An authorization without such a number comes
  back.
-/
import HyperPax.SetCode.Fields

set_option autoImplicit false

namespace HyperPax.SetCode

open Lib Relation List SetCodeAuthorization

/-! ## Authorizations -/

variable {I : Type} (ints : Codec I)

def authSchema : List Slot :=
  [optionalSlot 1, optionalSlot 2, optionalSlot 3, optionalSlot 4, optionalSlot 5, optionalSlot 6]

namespace SetCodeAuthorization

/-- The fields as pieces. -/
def view (a : SetCodeAuthorization I) : View := fun num =>
  if num = 1 then [.bytes (intBytes ints a.chainID)]
  else if num = 2 then [.bytes a.address]
  else if num = 3 then [.varint a.nonce.toNat]
  else if num = 4 then [.bytes a.v]
  else if num = 5 then [.bytes a.r]
  else if num = 6 then [.bytes a.s]
  else []

/-- What `MarshalToSizedBuffer` writes. -/
def wire (a : SetCodeAuthorization I) : List UInt8 := Lib.wire authSchema (a.view ints)

/-- The fields in the order they are written. -/
def pieces (a : SetCodeAuthorization I) : List (Slot × Piece) :=
  [(optionalSlot 1, .bytes (intBytes ints a.chainID)), (optionalSlot 2, .bytes a.address),
    (optionalSlot 3, .varint a.nonce.toNat), (optionalSlot 4, .bytes a.v),
    (optionalSlot 5, .bytes a.r), (optionalSlot 6, .bytes a.s)]

variable (a : SetCodeAuthorization I)

theorem wire_eq : a.wire ints = (a.pieces ints).flatMap fun e => e.1.encode e.2 := by
  simp [wire, Lib.wire, authSchema, view, pieces, optionalSlot]

theorem writes : Writes (a.marshalToSizedBuffer ints) (a.wire ints) := by
  have hall := (writes_bytesField 6 a.s).bind <| (writes_bytesField 5 a.r).bind <|
    (writes_bytesField 4 a.v).bind <| (writes_numberField 3 a.nonce).bind <|
    (writes_bytesField 2 a.address).bind (writes_intField ints 1 a.chainID)
  rw [a.wire_eq]
  simp only [pieces, flatMap_cons, flatMap_nil, append_nil, append_assoc]
    at hall ⊢
  exact hall

theorem size_eq : a.size ints = (a.wire ints).length := by
  rw [a.wire_eq, size, setcodeIntFieldSize_eq ints 1, bytesFieldSize_eq 2, numberFieldSize_eq 3,
    bytesFieldSize_eq 4, bytesFieldSize_eq 5, bytesFieldSize_eq 6]
  simp only [pieces, flatMap_cons, flatMap_nil, append_nil, length_append, Slot.length_encode]
  omega

theorem marshal_eq : a.marshal ints = some (a.wire ints) := by
  rw [marshal, a.size_eq]
  exact (a.writes ints).fill_eq

/-- `Marshal` produces exactly `Size()` bytes and `Unmarshal` of them gives the same
authorization. -/
def RoundTrips (a : SetCodeAuthorization I) : Prop :=
  ∃ data, a.marshal ints = some data ∧ data.length = a.size ints ∧ unmarshal ints data = .ok a

/-- The lengths and the nonce are below 128. -/
def Short (a : SetCodeAuthorization I) : Prop :=
  (intBytes ints a.chainID).length < 128 ∧ a.address.length < 128 ∧ a.nonce < 128 ∧
    a.v.length < 128 ∧ a.r.length < 128 ∧ a.s.length < 128

end SetCodeAuthorization

theorem authDecoder_views (hints : ints.Lawful) :
    Views (authDecoder ints) authSchema (view ints) ints.TightIn where
  nodup := by decide
  single_tag := by decide
  holds a s hs p hp := by
    simp only [authSchema, mem_cons, not_mem_nil, or_false] at hs
    obtain rfl | rfl | rfl | rfl | rfl | rfl := hs <;>
      obtain rfl := mem_singleton.mp hp
    · exact rfl
    · exact rfl
    · exact ⟨_, rfl⟩
    · exact rfl
    · exact rfl
    · exact rfl
  number num e hk := by
    have hnum : num = 3 := by
      by_contra hne
      simp only [authDecoder] at hk
      rw [if_neg hne] at hk
      split_ifs at hk
    subst hnum
    refine ⟨optionalSlot 3, by decide, rfl, fun v a => View.eq_absorb rfl ?_⟩
    intro num hne
    have hne : num ≠ 3 := hne
    simp [view, authDecoder, hne]
  content num hk := by
    have hmem : num ∈ [1, 2, 4, 5, 6] := by
      by_contra hnot
      simp only [authDecoder] at hk
      rw [if_neg hnot] at hk
      split_ifs at hk
    simp only [mem_cons, not_mem_nil, or_false] at hmem
    obtain rfl | rfl | rfl | rfl | rfl := hmem
    · exact content_int ints hints (fun _ h => h) (by decide) (fun _ => rfl) (fun _ => rfl)
        (fun _ _ => rfl) fun v a k hne => by simp [view, hne]
    all_goals
      exact content_bytes (by decide) (fun _ => rfl) (fun _ _ => rfl)
        fun b a k hne => by simp [view, hne]

variable {ints}

theorem authBody_eq (data : List UInt8) : iteration (readField ints data) data =
      iteration ((authDecoder ints).readField data) data := by
  rw [readField_eq]

variable {s : Slot} {a : SetCodeAuthorization I}

theorem authSchema_singular (hs : s ∈ authSchema) : s.repeated = false := by
  revert s
  decide

theorem authSchema_default (a : SetCodeAuthorization I) (hs : s ∈ authSchema) :
    ∃ p, a.view ints s.num = [p] ∧ (view ints .empty s.num = [p] → s.Omitted p) := by
  simp only [authSchema, mem_cons, not_mem_nil, or_false] at hs
  obtain rfl | rfl | rfl | rfl | rfl | rfl := hs <;>
    exact ⟨_, rfl, fun hsame =>
      ⟨rfl, (congrArg (fun ps => (ps.map Piece.number).sum) hsame).symm⟩⟩

variable (hints : ints.Lawful)

include hints

theorem wire_length_le {data : List UInt8} (hdata : data.length < 2 ^ 63)
    (htight : ints.TightIn data) (h : unmarshal ints data = .ok a) :
    (a.wire ints).length ≤ data.length := by
  have hviews := authDecoder_views ints hints
  have hrun := fieldSteps_of_run (authBody_eq _) hdata h
  obtain ⟨-, hsteps⟩ := (hviews.forward hdata (fun _ => htight.mono) a).steps hrun
  have htotal := hsteps.owed_le_total hviews.nodup
  have hinitial : (Lib.wire authSchema (a.view ints)).length ≤
      owed authSchema (a.view ints) (view ints .empty) := by
    refine owed_initial (fun s hs hr => ?_) fun s hs _ hsame => ?_
    · rw [authSchema_singular hs] at hr
      cases hr
    obtain ⟨_, hp, hdefault⟩ := authSchema_default a hs
    rw [hp] at hsame ⊢
    rw [flatMap_singleton, Slot.encode, if_pos (hdefault hsame)]
  exact hinitial.trans htotal

theorem SetCodeAuthorization.short_of_roundTrips (hsize : a.size ints < 2 ^ 63)
    (htight : ints.TightIn (a.wire ints)) (hround : a.RoundTrips ints) : a.Short ints := by
  obtain ⟨_, hmarshal, -, hok⟩ := hround
  rw [a.marshal_eq] at hmarshal
  obtain rfl := Option.some.inj hmarshal
  rw [a.size_eq] at hsize
  have hrun := fieldSteps_of_run (authBody_eq _) hsize hok
  have hback : ComesBack authSchema (a.view ints) (view ints) (a.wire ints)
      (FieldStep (authDecoder ints) (a.wire ints)) .empty a := by
    refine ⟨(authDecoder_views ints hints).forward hsize (fun _ => htight.mono) a, rfl, rfl,
      ?_, ?_, hrun⟩
    · intro s hs hr
      rw [authSchema_singular hs] at hr
      cases hr
    · exact fun s hs _ => authSchema_default a hs
  have hfield : ∀ num p, optionalSlot num ∈ authSchema → a.view ints num = [p] → p.Short :=
    fun num p hs hp => hback.piece_short (s := optionalSlot num) hs (by
      rw [show (optionalSlot num).num = num from rfl, hp]
      exact mem_cons_self)
  refine ⟨?_, ?_, ?_, ?_, ?_, ?_⟩
  · exact hfield 1 _ (by decide) rfl
  · exact hfield 2 _ (by decide) rfl
  · exact UInt64.lt_iff_toNat_lt.mpr (hfield 3 _ (by decide) rfl)
  · exact hfield 4 _ (by decide) rfl
  · exact hfield 5 _ (by decide) rfl
  · exact hfield 6 _ (by decide) rfl

theorem authScript (hdigits : ∀ v, ints.marshal v ≠ []) (hshort : a.Short ints) :
    Script authSchema [0, 2] (authDecoder ints).Stores (a.pieces ints) .empty a := by
  obtain ⟨hchain, haddr, hnonce, hv, hr, hs⟩ := hshort
  exact script_int ints hints hdigits (f := fun v m => { m with chainID := v })
    (by decide) rfl (fun _ => rfl) hchain rfl <|
    script_bytes (by decide) rfl (fun _ => rfl) haddr rfl <|
    script_number (by decide) rfl hnonce rfl <|
    script_bytes (by decide) rfl (fun _ => rfl) hv rfl <|
    script_bytes (by decide) rfl (fun _ => rfl) hr rfl <|
    script_bytes (by decide) rfl (fun _ => rfl) hs rfl .nil

theorem unmarshal_wire (hdigits : ∀ v, ints.marshal v ≠ [])
    (hsize : (a.wire ints).length < 2 ^ 63) (hshort : a.Short ints) :
    unmarshal ints (a.wire ints) = .ok a := by
  have hviews := authDecoder_views ints hints
  have hsteps := (authScript hints hdigits hshort).run (hviews.heads _) (a.wire_eq ints)
  exact run_of_fieldSteps (authBody_eq _) hviews hsize hsteps

end HyperPax.SetCode
