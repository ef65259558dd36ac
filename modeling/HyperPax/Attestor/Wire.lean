/-
  Attestor/Wire.lean --- the hand-written wire format of `MsgUpdateTEERoots`.

  Source: x/attestor/types/msgs.go (Marshal, MarshalToSizedBuffer, Size, Unmarshal,
  teeProtoEncodeVarint, teeProtoSizeVarint).

  The authority is a Go string, that is, bytes; the roots are certificates or keys of any
  length.  An empty authority and a zero family are not written, an empty root is.
-/
import HyperPax.Lib.FieldReader

set_option autoImplicit false

namespace HyperPax.Attestor

open Lib FieldReader

/-- `MsgUpdateTEERoots`. -/
@[ext] structure MsgUpdateTEERoots where
  authority : List UInt8
  family : UInt32
  roots : List (List UInt8)
deriving DecidableEq

/-- `Reset`: the empty message. -/
def MsgUpdateTEERoots.empty : MsgUpdateTEERoots := ⟨[], 0, []⟩

/-! ## Encoding -/

/-- `teeProtoEncodeVarint`. -/
def teeProtoEncodeVarint (v : Nat) : Buffer → Option Buffer := putVarint v

/-- `teeProtoSizeVarint`. -/
def teeProtoSizeVarint (v : Nat) : Nat := varintSize v

/-- The content, its length before it and the tag before both. -/
def putContent (tag : UInt8) (content : List UInt8) (buffer : Buffer) : Option Buffer :=
  ((putSlice content buffer).bind (teeProtoEncodeVarint content.length)).bind (putByte tag)

/-- Field 3: one root, empty or not. -/
def putRoot (root : List UInt8) : Buffer → Option Buffer := putContent 0x1a root

/-- Field 2: the family, if it is not zero. -/
def putFamily (family : UInt32) (buffer : Buffer) : Option Buffer :=
  if family ≠ 0 then (teeProtoEncodeVarint family.toNat buffer).bind (putByte 0x10)
  else some buffer

/-- Field 1: the authority, if it is not empty. -/
def putAuthority (authority : List UInt8) (buffer : Buffer) : Option Buffer :=
  if 0 < authority.length then putContent 0x0a authority buffer else some buffer

/-- `MarshalToSizedBuffer`, from the last field to the first. -/
def MsgUpdateTEERoots.marshalToSizedBuffer (msg : MsgUpdateTEERoots) (buffer : Buffer) :
    Option Buffer :=
  ((putEach putRoot msg.roots buffer).bind (putFamily msg.family)).bind
    (putAuthority msg.authority)

/-- `Size`. -/
def MsgUpdateTEERoots.size (msg : MsgUpdateTEERoots) : Nat :=
  (if 0 < msg.authority.length then
    1 + msg.authority.length + teeProtoSizeVarint msg.authority.length else 0) +
  (if msg.family ≠ 0 then 1 + teeProtoSizeVarint msg.family.toNat else 0) +
  (msg.roots.map fun r => 1 + r.length + teeProtoSizeVarint r.length).sum

/-- `Marshal`, with `MarshalTo`: a buffer of `Size()` bytes, of which the written ones are
returned. -/
def MsgUpdateTEERoots.marshal (msg : MsgUpdateTEERoots) : Option (List UInt8) :=
  fill msg.size msg.marshalToSizedBuffer

/-! ## Decoding -/

/-- The errors `Unmarshal` returns. -/
inductive WireError where
  | unexpectedEOF
  | unsupportedWireType (wireType fieldNum : UInt8)
deriving DecidableEq

/-- `Unmarshal`.  The family is a number; the authority is a slice, and a root is copied into a
buffer that is made first.  Other fields are skipped. -/
def decoder : FieldReader WireError MsgUpdateTEERoots where
  wireTypes := [0, 2]
  eof := .unexpectedEOF
  badWireType := .unsupportedWireType
  use fieldNum := if fieldNum = 1 then .slice else if fieldNum = 3 then .copy else .skip
  setNumber fieldNum v msg := if fieldNum = 2 then { msg with family := .ofNat v } else msg
  setContent fieldNum content msg :=
    if fieldNum = 1 then { msg with authority := content }
    else if fieldNum = 3 then { msg with roots := msg.roots ++ [content] }
    else msg

/-! ## When it is safe -/

/-- Decoding a slice, into any message, is safe exactly when its headers are measured. -/
theorem updateTEERoots_safe_iff (data : Slice) (msg : MsgUpdateTEERoots) :
    decoder.Safe data.bytes msg ↔ decoder.Measured data.bytes := decoder.safe_iff data msg

/-- A root whose length is the word `2^64 - 1`. -/
def oversizedRoot : List UInt8 :=
  [0x1a, 0xff, 0xff, 0xff, 0xff, 0xff, 0xff, 0xff, 0xff, 0xff, 0x01]

/-- An unknown field whose length is the word `2^64 - 11`. -/
def rewindingField : List UInt8 :=
  [0x22, 0xf5, 0xff, 0xff, 0xff, 0xff, 0xff, 0xff, 0xff, 0xff, 0x01]

/-- The first panics; the second takes the index back to zero for ever. -/
theorem updateTEERoots_unsafe :
    decoder.unmarshal 1 oversizedRoot .empty = some (.panic (.make (2 ^ 64 - 1))) ∧
      (∀ fuel, decoder.unmarshal fuel rewindingField .empty = none) ∧
      ¬ decoder.Safe oversizedRoot .empty ∧ ¬ decoder.Safe rewindingField .empty := by
  refine ⟨by decide +kernel, ?_, ?_, ?_⟩
  · exact unmarshal_eq_none (by decide) (by decide +kernel)
  · exact not_safe_of_first ⟨3, 2, 2 ^ 64 - 1, 11⟩ (by decide) (by decide +kernel) (by decide)
  · exact not_safe_of_first ⟨4, 2, 2 ^ 64 - 11, 11⟩ (by decide) (by decide +kernel) (by decide)

end HyperPax.Attestor
