/-
  Oracle/Wire.lean --- the hand-written wire format of `MsgSubmitPrice`.

  Source: x/paxoracle/types/msgs.go (Marshal, MarshalToSizedBuffer, Size, Unmarshal,
  protoEncodeVarint, protoSizeVarint).

  The encoder fills a buffer from its end; the decoder walks a signed index over the bytes
  (`Lib.FieldReader`).  Go strings are byte strings, so all four fields are lists of bytes.
-/
import HyperPax.Lib.FieldReader

set_option autoImplicit false

namespace HyperPax.Oracle

open Lib FieldReader

/-- `MsgSubmitPrice`. -/
structure MsgSubmitPrice where
  signer : List UInt8
  marketId : List UInt8
  price : List UInt8
  confidence : List UInt8
deriving DecidableEq

/-- `Reset`: the empty message. -/
def MsgSubmitPrice.empty : MsgSubmitPrice := ⟨[], [], [], []⟩

/-! ## Encoding -/

/-- `protoEncodeVarint`. -/
def protoEncodeVarint (v : Nat) : Buffer → Option Buffer := putVarint v

/-- `protoSizeVarint`. -/
def protoSizeVarint (v : Nat) : Nat := varintSize v

/-- One block of `MarshalToSizedBuffer`: the content, its length before it and the tag before
both; an empty field is left out. -/
def putField (tag : UInt8) (content : List UInt8) (buffer : Buffer) : Option Buffer :=
  if 0 < content.length then
    ((putSlice content buffer).bind (protoEncodeVarint content.length)).bind (putByte tag)
  else some buffer

/-- `MarshalToSizedBuffer`, from the last field to the first. -/
def MsgSubmitPrice.marshalToSizedBuffer (msg : MsgSubmitPrice) (buffer : Buffer) :
    Option Buffer :=
  (((putField 0x22 msg.confidence buffer).bind (putField 0x1a msg.price)).bind
    (putField 0x12 msg.marketId)).bind (putField 0x0a msg.signer)

/-- One block of `Size`. -/
def fieldSize (l : Nat) : Nat :=
  if 0 < l then 1 + l + protoSizeVarint l else 0

/-- `Size`. -/
def MsgSubmitPrice.size (msg : MsgSubmitPrice) : Nat :=
  fieldSize msg.signer.length + fieldSize msg.marketId.length + fieldSize msg.price.length +
    fieldSize msg.confidence.length

/-- `Marshal`, with `MarshalTo`: a buffer of `Size()` bytes, of which the written ones are
returned. -/
def MsgSubmitPrice.marshal (msg : MsgSubmitPrice) : Option (List UInt8) :=
  fill msg.size msg.marshalToSizedBuffer

/-! ## Decoding -/

/-- The errors `Unmarshal` returns. -/
inductive WireError where
  | unexpectedEOF
  | unexpectedWireType (wireType fieldNum : UInt8)
deriving DecidableEq

/-- Store the content of a field; a field of another number is skipped. -/
def MsgSubmitPrice.setField (msg : MsgSubmitPrice) (fieldNum : Nat) (content : List UInt8) :
    MsgSubmitPrice :=
  if fieldNum = 1 then { msg with signer := content }
  else if fieldNum = 2 then { msg with marketId := content }
  else if fieldNum = 3 then { msg with price := content }
  else if fieldNum = 4 then { msg with confidence := content }
  else msg

/-- `Unmarshal`.  All fields are length-delimited; the market id is copied into a buffer that is
made first, the others are slices. -/
def decoder : FieldReader WireError MsgSubmitPrice where
  wireTypes := [2]
  eof := .unexpectedEOF
  badWireType := .unexpectedWireType
  use fieldNum :=
    if fieldNum = 2 then .copy else if fieldNum ∈ [1, 3, 4] then .slice else .skip
  setNumber _ _ msg := msg
  setContent fieldNum content msg := msg.setField fieldNum content

/-! ## When it is safe -/

/-- Decoding a slice, into any message, is safe exactly when its headers are measured. -/
theorem safe_iff_measured (data : Slice) (msg : MsgSubmitPrice) :
    decoder.Safe data.bytes msg ↔ decoder.Measured data.bytes := decoder.safe_iff data msg

/-- A market id whose length is the word `2^64 - 1`. -/
def oversizedMarketId : List UInt8 :=
  [0x12, 0xff, 0xff, 0xff, 0xff, 0xff, 0xff, 0xff, 0xff, 0xff, 0x01]

/-- An unknown field whose length is the word `2^64 - 11`. -/
def rewindingField : List UInt8 :=
  [0x2a, 0xf5, 0xff, 0xff, 0xff, 0xff, 0xff, 0xff, 0xff, 0xff, 0x01]

/-- The first panics; the second takes the index back to zero for ever. -/
theorem unmarshal_unsafe :
    decoder.unmarshal 1 oversizedMarketId .empty = some (.panic (.make (2 ^ 64 - 1))) ∧
      (∀ fuel, decoder.unmarshal fuel rewindingField .empty = none) ∧
      ¬ decoder.Safe oversizedMarketId .empty ∧ ¬ decoder.Safe rewindingField .empty := by
  refine ⟨by decide +kernel, ?_, ?_, ?_⟩
  · exact unmarshal_eq_none (by decide) (by decide +kernel)
  · exact not_safe_of_first ⟨2, 2, 2 ^ 64 - 1, 11⟩ (by decide) (by decide +kernel) (by decide)
  · exact not_safe_of_first ⟨5, 2, 2 ^ 64 - 11, 11⟩ (by decide) (by decide +kernel) (by decide)

end HyperPax.Oracle
