/-
  SetCode/Wire.lean --- the hand-written wire format of `SetCodeTx`.

  Source: x/evm/types/set_code_tx.go (the Marshal, Size and Unmarshal methods of SetCodeTx
  and SetCodeAuthorization, and the wire-format helpers).

  Integers and access tuples are encoded by other modules: their codecs are parameters.
  Strings are bytes.  A nil and an empty byte slice are the same list.  The decoder keeps
  Go's `int` index; a slice out of range is a panic, an outcome of its own.
-/
import HyperPax.Lib.FieldReader

set_option autoImplicit false

namespace HyperPax.SetCode

open Lib

/-- `Marshal` and `Unmarshal` of a type of another module. -/
structure Codec (α : Type) where
  marshal : α → List UInt8
  unmarshal : List UInt8 → Except String α

/-- What was marshalled is read back. -/
def Codec.Lawful {α : Type} (codec : Codec α) : Prop :=
  ∀ a, codec.unmarshal (codec.marshal a) = .ok a

/-- No part of the data stands for a value that is marshalled to more bytes.  A decoder may accept
other spellings: of an integer also `+7`, which is longer than `7`, and hexadecimal digits, which
need not be. -/
def Codec.TightIn {α : Type} (codec : Codec α) (data : List UInt8) : Prop :=
  ∀ part a, part <:+: data → codec.unmarshal part = .ok a → (codec.marshal a).length ≤ part.length

theorem Codec.TightIn.mono {α : Type} {codec : Codec α} {part data : List UInt8}
    (h : codec.TightIn data) (hpart : part <:+: data) : codec.TightIn part :=
  fun inner a hinner ha => h inner a (hinner.trans hpart) ha

/-- `SetCodeAuthorization`, over a type of integers. -/
structure SetCodeAuthorization (I : Type) where
  chainID : Option I
  address : List UInt8
  nonce : UInt64
  v : List UInt8
  r : List UInt8
  s : List UInt8
deriving DecidableEq

/-- `SetCodeTx`, over a type of integers and one of access tuples. -/
structure SetCodeTx (I A : Type) where
  chainID : Option I
  nonce : UInt64
  gasTipCap : Option I
  gasFeeCap : Option I
  gasLimit : UInt64
  /-- `To` -/
  toAddress : List UInt8
  amount : Option I
  data : List UInt8
  accesses : List A
  v : List UInt8
  r : List UInt8
  s : List UInt8
  authList : List (SetCodeAuthorization I)
deriving DecidableEq

variable {I A : Type}

/-- `SetCodeAuthorization{}`. -/
def SetCodeAuthorization.empty : SetCodeAuthorization I := ⟨none, [], 0, [], [], []⟩

/-- `SetCodeTx{}`. -/
def SetCodeTx.empty : SetCodeTx I A := ⟨none, 0, none, none, 0, [], none, [], [], [], [], [], []⟩

/-! ## Encoding -/

/-- `protoEncodeSetCodeVarint`. -/
def protoEncodeSetCodeVarint (v : Nat) : Buffer → Option Buffer := putVarint v

/-- `protoSizeSetCodeVarint`. -/
def protoSizeSetCodeVarint (v : Nat) : Nat := varintSize v

/-- The content, its length before it and the tag before both. -/
def marshalContent (content : List UInt8) (tag : UInt8) (buffer : Buffer) : Option Buffer :=
  ((putSlice content buffer).bind (protoEncodeSetCodeVarint content.length)).bind (putByte tag)

/-- `setcodeMarshalBytesField`; the blocks of the two string fields do the same. -/
def setcodeMarshalBytesField (b : List UInt8) (tag : UInt8) (buffer : Buffer) : Option Buffer :=
  if b.length ≠ 0 then marshalContent b tag buffer else some buffer

/-- `setcodeMarshalIntField`. -/
def setcodeMarshalIntField (ints : Codec I) (v : Option I) (tag : UInt8) (buffer : Buffer) :
    Option Buffer :=
  match v with
  | none => some buffer
  | some v =>
    if (ints.marshal v).length ≠ 0 then marshalContent (ints.marshal v) tag buffer else some buffer

/-- The block of a `uint64` field. -/
def marshalNumberField (v : UInt64) (tag : UInt8) (buffer : Buffer) : Option Buffer :=
  if v ≠ 0 then (protoEncodeSetCodeVarint v.toNat buffer).bind (putByte tag) else some buffer

/-- `setcodeIntFieldSize`. -/
def setcodeIntFieldSize (ints : Codec I) (v : Option I) (tagBytes : Nat) : Nat :=
  match v with
  | none => 0
  | some v =>
    if (ints.marshal v).length = 0 then 0
    else tagBytes + (ints.marshal v).length + protoSizeSetCodeVarint (ints.marshal v).length

/-- The size of a bytes or string field. -/
def bytesFieldSize (b : List UInt8) : Nat :=
  if 0 < b.length then 1 + b.length + protoSizeSetCodeVarint b.length else 0

/-- The size of a `uint64` field. -/
def numberFieldSize (v : UInt64) : Nat := if v ≠ 0 then 1 + protoSizeSetCodeVarint v.toNat else 0

namespace SetCodeAuthorization

/-- `SetCodeAuthorization.MarshalToSizedBuffer`. -/
def marshalToSizedBuffer (ints : Codec I) (a : SetCodeAuthorization I) (buffer : Buffer) :
    Option Buffer := do
  let buffer ← setcodeMarshalBytesField a.s 0x32 buffer
  let buffer ← setcodeMarshalBytesField a.r 0x2a buffer
  let buffer ← setcodeMarshalBytesField a.v 0x22 buffer
  let buffer ← marshalNumberField a.nonce 0x18 buffer
  let buffer ← setcodeMarshalBytesField a.address 0x12 buffer
  setcodeMarshalIntField ints a.chainID 0x0a buffer

/-- `SetCodeAuthorization.Size`. -/
def size (ints : Codec I) (a : SetCodeAuthorization I) : Nat :=
  setcodeIntFieldSize ints a.chainID 1 + bytesFieldSize a.address + numberFieldSize a.nonce +
    bytesFieldSize a.v + bytesFieldSize a.r + bytesFieldSize a.s

/-- `SetCodeAuthorization.Marshal`; `none` is a panic. -/
def marshal (ints : Codec I) (a : SetCodeAuthorization I) : Option (List UInt8) :=
  fill (a.size ints) (a.marshalToSizedBuffer ints)

end SetCodeAuthorization

/-- One entry of the authorization list: an empty one is left out, the others are written into
`data[:i]`. -/
def marshalAuthorization (ints : Codec I) (a : SetCodeAuthorization I) (buffer : Buffer) :
    Option Buffer :=
  if 0 < a.size ints then
    ((putInside (a.marshalToSizedBuffer ints) buffer).bind
      (protoEncodeSetCodeVarint (a.size ints))).bind (putByte 0x72)
  else some buffer

/-- One access tuple, whatever its length. -/
def marshalAccess (tuples : Codec A) (a : A) : Buffer → Option Buffer :=
  marshalContent (tuples.marshal a) 0x4a

namespace SetCodeTx

/-- `SetCodeTx.MarshalToSizedBuffer`. -/
def marshalToSizedBuffer (ints : Codec I) (tuples : Codec A) (tx : SetCodeTx I A)
    (buffer : Buffer) : Option Buffer := do
  let buffer ← putEach (marshalAuthorization ints) tx.authList buffer
  let buffer ← setcodeMarshalBytesField tx.s 0x6a buffer
  let buffer ← setcodeMarshalBytesField tx.r 0x62 buffer
  let buffer ← setcodeMarshalBytesField tx.v 0x5a buffer
  let buffer ← putEach (marshalAccess tuples) tx.accesses buffer
  let buffer ← setcodeMarshalBytesField tx.data 0x42 buffer
  let buffer ← setcodeMarshalIntField ints tx.amount 0x3a buffer
  let buffer ← setcodeMarshalBytesField tx.toAddress 0x32 buffer
  let buffer ← marshalNumberField tx.gasLimit 0x28 buffer
  let buffer ← setcodeMarshalIntField ints tx.gasFeeCap 0x22 buffer
  let buffer ← setcodeMarshalIntField ints tx.gasTipCap 0x1a buffer
  let buffer ← marshalNumberField tx.nonce 0x10 buffer
  setcodeMarshalIntField ints tx.chainID 0x0a buffer

/-- `SetCodeTx.Size`: of the access tuples only those with a non-empty encoding count. -/
def size (ints : Codec I) (tuples : Codec A) (tx : SetCodeTx I A) : Nat :=
  setcodeIntFieldSize ints tx.chainID 1 + numberFieldSize tx.nonce +
    setcodeIntFieldSize ints tx.gasTipCap 1 + setcodeIntFieldSize ints tx.gasFeeCap 1 +
    numberFieldSize tx.gasLimit + bytesFieldSize tx.toAddress +
    setcodeIntFieldSize ints tx.amount 1 + bytesFieldSize tx.data +
    (tx.accesses.map fun a => bytesFieldSize (tuples.marshal a)).sum +
    bytesFieldSize tx.v + bytesFieldSize tx.r + bytesFieldSize tx.s +
    (tx.authList.map fun a =>
      if 0 < a.size ints then 1 + a.size ints + protoSizeSetCodeVarint (a.size ints) else 0).sum

/-- `SetCodeTx.Marshal`; `none` is a panic. -/
def marshal (ints : Codec I) (tuples : Codec A) (tx : SetCodeTx I A) : Option (List UInt8) :=
  fill (tx.size ints tuples) (tx.marshalToSizedBuffer ints tuples)

end SetCodeTx

/-! ## Decoding -/

/-- The errors of the two `Unmarshal` methods. -/
inductive WireError where
  | unexpectedEOF
  | varintOverflow
  | nonceWireType (wireType : Nat)
  | gasLimitWireType (wireType : Nat)
  | authNonceWireType (wireType : Nat)
  | expectedLengthDelim (wireType : Nat)
  | cannotSkip (wireType : Nat)
  /-- the error of `sdkmath.Int.Unmarshal` -/
  | integer (text : String)
  /-- the error of `AccessTuple.Unmarshal`, wrapped -/
  | accessTuple (text : String)
  | authorization (e : WireError)
deriving DecidableEq

def varintError : VarintError → WireError
  | .eof => .unexpectedEOF
  | .overflow => .varintOverflow

/-- `protoDecodeSetCodeVarint(data[idx:])`: the number, and the index behind it. -/
def protoDecodeSetCodeVarint (data : List UInt8) (idx : Int) : Outcome WireError (Nat × Int) := do
  let rest ← sliceFrom data idx
  let r ← .ofExcept varintError (readVarint (some 63) rest 0 0)
  return (r.1, idx + r.2)

/-- `setcodeReadLengthDelim`: the bounds check is a sum of two words. -/
def setcodeReadLengthDelim (data : List UInt8) (idx : Int) (wireType : Nat) :
    Outcome WireError (List UInt8 × Int) :=
  if wireType ≠ 2 then .error (.expectedLengthDelim wireType)
  else do
    let r ← protoDecodeSetCodeVarint data idx
    if (data.length : Int) < (r.2 + r.1) % 2 ^ 64 then .error .unexpectedEOF
    else do
      let stop := int64 (r.2 + int64 r.1)
      let content ← sliceOf data r.2 stop
      return (content, stop)

/-- `setcodeReadIntField`. -/
def setcodeReadIntField (ints : Codec I) (data : List UInt8) (idx : Int) (wireType : Nat) :
    Outcome WireError (Option I × Int) := do
  let r ← setcodeReadLengthDelim data idx wireType
  if r.1.length = 0 then return (none, r.2)
  else do
    let v ← .ofExcept .integer (ints.unmarshal r.1)
    return (some v, r.2)

/-- `setcodeSkipField`. -/
def setcodeSkipField (data : List UInt8) (idx : Int) (wireType : Nat) : Outcome WireError Int :=
  if wireType = 0 then do
    let r ← protoDecodeSetCodeVarint data idx
    return r.2
  else if wireType = 2 then do
    let r ← setcodeReadLengthDelim data idx wireType
    return r.2
  else .error (.cannotSkip wireType)

/-- The case of a `uint64` field. -/
def readNumberField (e : Nat → WireError) (data : List UInt8) (idx : Int) (wireType : Nat) :
    Outcome WireError (UInt64 × Int) :=
  if wireType ≠ 0 then .error (e wireType)
  else do
    let r ← protoDecodeSetCodeVarint data idx
    return (.ofNat r.1, r.2)

/-- One iteration of a loop: the tag, then the case of its field number. -/
def iteration {M : Type} (readField : M → Int → Nat → Nat → Outcome WireError (Cursor M))
    (data : List UInt8) (c : Cursor M) : Outcome WireError (Cursor M) := do
  let tag ← protoDecodeSetCodeVarint data c.idx
  readField c.msg tag.2 (tag.1 / 8) (tag.1 % 8)

end HyperPax.SetCode
