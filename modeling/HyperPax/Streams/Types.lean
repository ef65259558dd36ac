/-
  Streams/Types.lean --- records, parameters, errors and store of x/streams.

  Source: x/streams/types/{types,params,errors,keys}.go and
  x/streams/keeper/{stream,params}.go.
-/
import HyperPax.Base.Bank
import HyperPax.Lib.Allocator
import HyperPax.Lib.Decimal
import HyperPax.Lib.KVStore

set_option autoImplicit false

namespace HyperPax.Streams

open Lib KVStore

/-! ## Records -/

/-- `types.Stream`: addresses are byte slices, amounts are decimal strings. -/
structure Stream where
  id : UInt64
  payer : List UInt8
  payee : List UInt8
  token : List UInt8
  ratePerSecond : String
  cap : String
  startTime : UInt64
  stopTime : UInt64
  settled : String
  active : Bool
deriving DecidableEq

/-- `types.Params`. -/
structure Params where
  gasOpen : UInt64
  gasSettle : UInt64
  gasClose : UInt64
  gasUpdateRate : UInt64
  gasView : UInt64
  minDuration : UInt64
  maxStreamsPerPayer : UInt32
deriving DecidableEq

/-- `types.DefaultParams`. -/
def defaultParams : Params where
  gasOpen := 8000
  gasSettle := 4000
  gasClose := 5000
  gasUpdateRate := 4000
  gasView := 200
  minDuration := 60
  maxStreamsPerPayer := 4096

/-- `Params.Validate`: the text of the first check that fails. -/
def Params.validate (p : Params) : Except String Unit :=
  if p.gasOpen = 0 then .error "gas_open must be > 0"
  else if p.gasSettle = 0 then .error "gas_settle must be > 0"
  else if p.gasClose = 0 then .error "gas_close must be > 0"
  else if p.gasUpdateRate = 0 then .error "gas_update_rate must be > 0"
  else if p.minDuration = 0 then .error "min_duration must be > 0"
  else if p.maxStreamsPerPayer = 0 then .error "max_streams_per_payer must be > 0"
  else .ok ()

example : defaultParams.validate = .ok () := rfl

/-! ## Errors -/

/-- Why a token movement failed: the bank said no, or the ERC-20 call did. -/
inductive TransferError where
  | bank (cause : BankError)
  | erc20Escrow
  | erc20Payout
deriving DecidableEq

/-- The errors the keeper returns, with the values their texts show. -/
inductive Err where
  | invalidPayee
  | selfPayment
  | invalidRate
  | invalidCap
  | invalidTime (stopTime earliest : UInt64)
  | maxStreamsExceeded (payer : Address) (max : UInt32)
  | escrowFailed (cause : TransferError)
  | streamNotFound (id : UInt64)
  | streamInactive (id : UInt64)
  | notParty (caller : List UInt8) (id : UInt64)
  | notPayer (caller : List UInt8) (id : UInt64)
  | transfer (cause : TransferError)
deriving DecidableEq

/-! ## Store keys -/

/-- `0x01`. -/
def streamByIDKeyPrefix : Key := [0x01]

/-- `0x01 | be8(streamID)`. -/
def streamByIDKey (streamID : UInt64) : Key :=
  0x01 :: putUint64 streamID

/-- `0x02 | payer`. -/
def payerStreamsPrefix (payer : List UInt8) : Key :=
  0x02 :: payer

/-- `0x02 | payer | be8(streamID)`. -/
def payerStreamKey (payer : List UInt8) (streamID : UInt64) : Key :=
  0x02 :: (payer ++ putUint64 streamID)

/-- `0x03 | payee`. -/
def payeeStreamsPrefix (payee : List UInt8) : Key :=
  0x03 :: payee

/-- `0x03 | payee | be8(streamID)`. -/
def payeeStreamKey (payee : List UInt8) (streamID : UInt64) : Key :=
  0x03 :: (payee ++ putUint64 streamID)

/-- `0x04`. -/
def paramsKey : Key := [0x04]

/-- `0x05`. -/
def nextStreamIDKey : Key := [0x05]

@[simp] theorem streamByIDKey_inj {id id' : UInt64} :
    streamByIDKey id = streamByIDKey id' ↔ id = id' := by
  simp [streamByIDKey]

section

variable (id id' : UInt64) (a : List UInt8)

@[simp] theorem payerKey_ne_idKey : payerStreamKey a id' ≠ streamByIDKey id := by
  simp [payerStreamKey, streamByIDKey]

@[simp] theorem payeeKey_ne_idKey : payeeStreamKey a id' ≠ streamByIDKey id := by
  simp [payeeStreamKey, streamByIDKey]

@[simp] theorem paramsKey_ne_idKey : paramsKey ≠ streamByIDKey id := by
  simp [paramsKey, streamByIDKey]

@[simp] theorem nextKey_ne_idKey : nextStreamIDKey ≠ streamByIDKey id := by
  simp [nextStreamIDKey, streamByIDKey]

@[simp] theorem idKey_ne : streamByIDKey id ≠ paramsKey ∧ streamByIDKey id ≠ nextStreamIDKey := by
  simp [streamByIDKey, paramsKey, nextStreamIDKey]

@[simp] theorem payerKey_ne :
    payerStreamKey a id ≠ paramsKey ∧ payerStreamKey a id ≠ nextStreamIDKey := by
  simp [payerStreamKey, paramsKey, nextStreamIDKey]

@[simp] theorem payeeKey_ne :
    payeeStreamKey a id ≠ paramsKey ∧ payeeStreamKey a id ≠ nextStreamIDKey := by
  simp [payeeStreamKey, paramsKey, nextStreamIDKey]

end

/-! ## The store -/

/-- What the store holds. -/
inductive Value where
  | stream (s : Stream)
  | marker
  | params (p : Params)
  | counter (n : UInt64)
deriving DecidableEq

abbrev Store : Type := KVStore Value

/-- `json.Unmarshal` into a `Stream`. -/
def Value.stream? : Value → Option Stream
  | .stream s => some s
  | _ => none

/-- The eight bytes of a counter, read back. -/
def Value.counter? : Value → Option UInt64
  | .counter n => some n
  | _ => none

@[simp] theorem stream?_stream (s : Stream) : (Value.stream s).stream? = some s := rfl

/-- `GetParams`. -/
def getParams (store : Store) : Params :=
  match store[paramsKey]? with
  | some (.params p) => p
  | _ => defaultParams

/-- `SetParams`. -/
def setParams (store : Store) (p : Params) : Except String Store :=
  match p.validate with
  | .ok () => .ok (store.insert paramsKey (.params p))
  | .error e => .error e

/-- `SetStream`: the record by id and the two membership markers. -/
def setStream (store : Store) (s : Stream) : Store :=
  ((store.insert (streamByIDKey s.id) (.stream s)).insert
    (payerStreamKey s.payer s.id) .marker).insert
    (payeeStreamKey s.payee s.id) .marker

/-- `GetStream`. -/
def getStream (store : Store) (streamID : UInt64) : Option Stream :=
  store[streamByIDKey streamID]?.bind Value.stream?

/-- `DeleteStream`. -/
def deleteStream (store : Store) (s : Stream) : Store :=
  ((store.erase (streamByIDKey s.id)).erase (payerStreamKey s.payer s.id)).erase
    (payeeStreamKey s.payee s.id)

/-- `streamIDsByPrefix`. -/
def streamIDsByPrefix (store : Store) (pre : Key) (prefixLen : Nat) : List UInt64 :=
  (store.scan pre).filterMap fun kv =>
    if kv.1.length < prefixLen + 8 then none
    else some (getUint64 ((kv.1.drop prefixLen).take 8))

/-- `PayerStreamIDs`. -/
def payerStreamIDs (store : Store) (payer : List UInt8) : List UInt64 :=
  streamIDsByPrefix store (payerStreamsPrefix payer) (1 + payer.length)

/-- `PayeeStreamIDs`. -/
def payeeStreamIDs (store : Store) (payee : List UInt8) : List UInt64 :=
  streamIDsByPrefix store (payeeStreamsPrefix payee) (1 + payee.length)

/-- `CountStreamsByPayer`: a 32-bit count. -/
def countStreamsByPayer (store : Store) (payer : List UInt8) : UInt32 :=
  .ofNat (store.scan (payerStreamsPrefix payer)).length

/-- `GetAllStreams`. -/
def getAllStreams (store : Store) : List Stream :=
  (store.scan streamByIDKeyPrefix).filterMap fun kv => kv.2.stream?

/-- The stored counter. -/
def storedCounter (store : Store) : Option UInt64 :=
  store[nextStreamIDKey]?.bind Value.counter?

/-- The id that `NextStreamID` hands out. -/
def nextStreamID (store : Store) : UInt64 := nextId (storedCounter store)

/-- What `NextStreamID` persists: the successor, modulo `2^64`. -/
def bumpNextStreamID (store : Store) : Store :=
  store.insert nextStreamIDKey (.counter (nextStreamID store + 1))

/-! ## Reading after writing -/

variable (store : Store) (s : Stream) (id : UInt64)

theorem get_id_setStream : (setStream store s)[streamByIDKey id]? =
      if s.id = id then some (.stream s) else store[streamByIDKey id]? := by
  simp [setStream, get_insert]

theorem get_id_deleteStream : (deleteStream store s)[streamByIDKey id]? =
      if s.id = id then none else store[streamByIDKey id]? := by
  simp [deleteStream, get_erase]

@[simp] theorem getStream_bumpNextStreamID :
    getStream (bumpNextStreamID store) id = getStream store id := by
  simp [getStream, bumpNextStreamID, get_insert]

theorem getStream_setStream :
    getStream (setStream store s) id = if s.id = id then some s else getStream store id := by
  rw [getStream, get_id_setStream]
  split <;> rfl

theorem getStream_deleteStream :
    getStream (deleteStream store s) id = if s.id = id then none else getStream store id := by
  rw [getStream, get_id_deleteStream]
  split <;> rfl

@[simp] theorem storedCounter_setStream :
    storedCounter (setStream store s) = storedCounter store := by
  simp [storedCounter, setStream, get_insert]

@[simp] theorem storedCounter_deleteStream :
    storedCounter (deleteStream store s) = storedCounter store := by
  simp [storedCounter, deleteStream, get_erase]

theorem storedCounter_bumpNextStreamID :
    storedCounter (bumpNextStreamID store) = some (nextStreamID store + 1) := by
  rw [storedCounter, bumpNextStreamID, get_insert, if_pos rfl]
  rfl

end HyperPax.Streams
