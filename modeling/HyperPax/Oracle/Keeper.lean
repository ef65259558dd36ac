/-
  Oracle/Keeper.lean --- records, keys and methods of x/paxoracle, and the oracle precompile.

  Source: x/paxoracle/types/{msgs,genesis,params,errors,keys}.go,
  x/paxoracle/keeper/{price,msg_server,params,genesis}.go,
  precompiles/paxspot/oracle/oracle.go (submitPrice, getValidatorPrice).

  Addresses enter as bech32 texts and are stored as they were written; prices and
  confidences are stored as decimal strings.  The staking module is the list of the
  operator addresses it knows.  Heights and times are 64-bit in the code and never
  come near their bounds.
-/
import HyperPax.Base.Address
import HyperPax.Lib.Bech32
import HyperPax.Lib.Decimal
import HyperPax.Lib.KVStore
import HyperPax.Lib.Transition
import HyperPax.Oracle.Wire

set_option autoImplicit false

namespace HyperPax.Oracle

open Lib

/-! ## Account addresses -/

/-- `config.Bech32Prefix`: `pax`. -/
def bech32Prefix : List UInt8 := [0x70, 0x61, 0x78]

/-- `sdk.AccAddressFromBech32`: the text of the chain's prefix and of 1 to 255 bytes. -/
def accAddressFromBech32 (address : List UInt8) : Option (List UInt8) := do
  let (hrp, bytes) ← Bech32.decodeAndConvert address
  guard (hrp = bech32Prefix)
  guard (bytes ≠ [] ∧ bytes.length ≤ 255)
  return bytes

/-- `AccAddress.String`: the empty address has the empty text. -/
def accAddressString (account : List UInt8) : List UInt8 :=
  if account = [] then [] else Bech32.convertAndEncode bech32Prefix account

theorem accAddressFromBech32_accAddressString {account : List UInt8} (hne : account ≠ [])
    (hlength : account.length ≤ 255) :
    accAddressFromBech32 (accAddressString account) = some account := by
  have hread : Bech32.decodeAndConvert (Bech32.convertAndEncode bech32Prefix account) =
      some (bech32Prefix, account) := by
    refine Bech32.decodeAndConvert_convertAndEncode ⟨by decide, by decide +kernel⟩ ?_
    simp only [bech32Prefix, List.length_cons, List.length_nil, Bech32.limit]
    omega
  rw [accAddressString, if_neg hne]
  simp [accAddressFromBech32, hread, guard, hne, hlength]

theorem accAddressFromBech32_string (a : Address) :
    accAddressFromBech32 (accAddressString a.bytes) = some a.bytes := by
  have hlength := a.length_bytes
  exact accAddressFromBech32_accAddressString (List.ne_nil_of_length_eq_add_one hlength) (by omega)

/-! ## Records -/

/-- A market identifier: exactly 32 bytes. -/
structure MarketId where
  bytes : List UInt8
  length_bytes : bytes.length = 32
deriving DecidableEq

/-- The zero identifier. -/
def MarketId.zero : MarketId := ⟨.replicate 32 0, by decide⟩

/-- `GetMarketIdArray`: `copy` into a fresh array. -/
def MarketId.ofBytes (b : List UInt8) : MarketId where
  bytes := b.take 32 ++ .replicate (32 - b.length) 0
  length_bytes := by
    rw [List.length_append, List.length_take, List.length_replicate]
    omega

@[simp] theorem MarketId.ofBytes_bytes (m : MarketId) : .ofBytes m.bytes = m := by
  obtain ⟨bytes, hlen⟩ := m
  have htake : bytes.take 32 = bytes := List.take_of_length_le (by omega)
  simp [MarketId.ofBytes, htake, hlen]

/-- `types.PriceSubmission`. -/
structure PriceSubmission where
  validatorAddr : List UInt8
  marketId : MarketId
  price : Int
  confidence : Int
  blockHeight : Int
  timestamp : Int
deriving DecidableEq

/-- `priceSubmissionJSON`: what is stored of a submission. -/
structure PriceSubmissionJSON where
  validatorAddr : List UInt8
  price : String
  confidence : String
  blockHeight : Int
  timestamp : Int
deriving DecidableEq

/-- The stored form of a submission. -/
def PriceSubmission.toJSON (sub : PriceSubmission) : PriceSubmissionJSON :=
  ⟨sub.validatorAddr, formatInt sub.price, formatInt sub.confidence, sub.blockHeight, sub.timestamp⟩

/-- `types.SupportedMarket`. -/
structure SupportedMarket where
  marketId : MarketId
  ticker : String
deriving DecidableEq

/-- `types.Params`. -/
structure Params where
  stalenessThreshold : Int
  minQuorum : UInt64
deriving DecidableEq

/-- `types.DefaultParams`. -/
def defaultParams : Params := ⟨15, 1⟩

/-- `DefaultMaxConfidence`: 1e18. -/
def defaultMaxConfidence : Int := 10 ^ 18

/-- `Params.Validate`. -/
def Params.validate (p : Params) : Except String Unit :=
  if p.stalenessThreshold ≤ 0 then
    .error s!"staleness threshold must be positive: {p.stalenessThreshold}"
  else if p.minQuorum = 0 then .error "min quorum must be at least 1"
  else .ok ()

/-! ## Errors -/

/-- The errors of the module; the cause of a refused address is the SDK's own text. -/
inductive Err where
  | invalidAddress
  | marketIdLength
  | marketIdZero
  | priceNotPositive
  | confidenceRange
  | invalidSigner
  | notValidator (signer : List UInt8)
  | marketNotSupported (marketId : MarketId)
  | priceString
  | confidenceString
  | staleSubmissions (marketId : MarketId) (threshold : Int)
  | insufficientQuorum (got : Nat) (need : UInt64)
deriving DecidableEq

/-! ## Store -/

/-- `0x01 | marketId | valAddr`. -/
def priceSubmissionKey (m : MarketId) (valAddr : List UInt8) : Key := 0x01 :: (m.bytes ++ valAddr)

/-- `0x01 | marketId`. -/
def priceSubmissionsByMarketPrefix (m : MarketId) : Key := 0x01 :: m.bytes

/-- `0x02`. -/
def paramsKey : Key := [0x02]

/-- `0x03`. -/
def supportedMarketKeyPrefix : Key := [0x03]

/-- `0x03 | marketId`. -/
def supportedMarketKey (m : MarketId) : Key := 0x03 :: m.bytes

/-- What the store holds under a key. -/
inductive Value where
  | submission (data : PriceSubmissionJSON)
  | params (p : Params)
  | market (m : SupportedMarket)
deriving DecidableEq

/-- The module's store. -/
abbrev Store : Type := KVStore Value

/-- The block a call runs in. -/
structure Block where
  height : Int
  time : Int
deriving DecidableEq

/-- Read a stored submission: both numbers must parse. -/
def PriceSubmissionJSON.parse (data : PriceSubmissionJSON) (m : MarketId) :
    Option PriceSubmission := do
  let price ← parseInt data.price
  let confidence ← parseInt data.confidence
  return ⟨data.validatorAddr, m, price, confidence, data.blockHeight, data.timestamp⟩

@[simp] theorem PriceSubmission.parse_toJSON (sub : PriceSubmission) :
    sub.toJSON.parse sub.marketId = some sub := by
  simp [toJSON, PriceSubmissionJSON.parse]

/-- `json.Unmarshal` of a submission. -/
def Value.submission? : Value → Option PriceSubmissionJSON
  | .submission data => some data
  | _ => none

/-- `json.Unmarshal` of a supported market. -/
def Value.market? : Value → Option SupportedMarket
  | .market m => some m
  | _ => none

namespace Store

variable (store : Store)

/-- `SetPriceSubmission`. -/
def setPriceSubmission (sub : PriceSubmission) : Store :=
  store.insert (priceSubmissionKey sub.marketId sub.validatorAddr) (.submission sub.toJSON)

/-- `GetAllSubmissionsForMarket`: in the order of the keys, without those that do not parse. -/
def getAllSubmissionsForMarket (m : MarketId) : List PriceSubmission :=
  (store.scan (priceSubmissionsByMarketPrefix m)).filterMap fun kv =>
    kv.2.submission?.bind fun data => data.parse m

/-- `SetSupportedMarket`. -/
def setSupportedMarket (market : SupportedMarket) : Store :=
  store.insert (supportedMarketKey market.marketId) (.market market)

/-- `IsSupportedMarket`. -/
def isSupportedMarket (m : MarketId) : Bool := store[supportedMarketKey m]?.isSome

/-- `GetAllSupportedMarkets`. -/
def getAllSupportedMarkets : List SupportedMarket :=
  (store.scan supportedMarketKeyPrefix).filterMap fun kv => kv.2.market?

/-- `GetParams`. -/
def getParams : Params :=
  match store[paramsKey]? with
  | some (.params p) => p
  | _ => defaultParams

/-- `SetParams`. -/
def setParams (p : Params) : Except String Store := do
  p.validate
  return store.insert paramsKey (.params p)

/-- Is a submission young enough at this height? -/
def isFresh (block : Block) (sub : PriceSubmission) : Bool :=
  block.height - sub.blockHeight ≤ store.getParams.stalenessThreshold

/-- The submissions `GetMedianPrice` works with. -/
def freshSubmissions (block : Block) (m : MarketId) : List PriceSubmission :=
  (store.getAllSubmissionsForMarket m).filter (store.isFresh block)

end Store

/-- The walk of `GetMedianPrice` over the submissions in price order: the first price at
which the confidence seen so far reaches half of the total. -/
def crossing (halfWeight : Int) : Int → List PriceSubmission → Option Int
  | _, [] => none
  | cumWeight, sub :: rest =>
    if halfWeight ≤ cumWeight + sub.confidence then some sub.price
    else crossing halfWeight (cumWeight + sub.confidence) rest

/-- The oldest timestamp of a list, starting from that of its first element. -/
def oldestTimestamp (first : PriceSubmission) (rest : List PriceSubmission) : Int :=
  rest.foldl (fun oldest sub => if sub.timestamp < oldest then sub.timestamp else oldest)
    first.timestamp

/-- `GetMedianPrice`: price, quorum and oldest timestamp. -/
def Store.getMedianPrice (store : Store) (block : Block) (m : MarketId) :
    Except Err (Int × Int × Int) :=
  let fresh := store.freshSubmissions block m
  if fresh = [] then .error (.staleSubmissions m store.getParams.stalenessThreshold)
  else if fresh.length < store.getParams.minQuorum.toNat then
    .error (.insufficientQuorum fresh.length store.getParams.minQuorum)
  else
    match fresh.insertionSort (fun a b => a.price ≤ b.price) with
    -- the list is not empty
    | [] => .error (.staleSubmissions m store.getParams.stalenessThreshold)
    | first :: rest =>
      let totalConfidence := ((first :: rest).map (·.confidence)).sum
      let medianPrice := (crossing (totalConfidence / 2) 0 (first :: rest)).getD first.price
      .ok (medianPrice, fresh.length, oldestTimestamp first rest)

/-! ## The message path -/

namespace MsgSubmitPrice

/-- `NewMsgSubmitPrice`. -/
def new (signer : List UInt8) (m : MarketId) (price confidence : Int) : MsgSubmitPrice :=
  ⟨signer, m.bytes, decimalBytes price, decimalBytes confidence⟩

/-- `GetPriceBigInt`. -/
def getPriceBigInt (msg : MsgSubmitPrice) : Option Int := parseInt (textOfBytes msg.price)

/-- `GetConfidenceBigInt`. -/
def getConfidenceBigInt (msg : MsgSubmitPrice) : Option Int :=
  parseInt (textOfBytes msg.confidence)

/-- `ValidateBasic`. -/
def validateBasic (msg : MsgSubmitPrice) : Except Err Unit :=
  if accAddressFromBech32 msg.signer = none then .error .invalidAddress
  else if msg.marketId.length ≠ 32 then .error .marketIdLength
  else if msg.marketId = .replicate 32 0 then .error .marketIdZero
  else if ¬ msg.getPriceBigInt.any (0 < ·) then .error .priceNotPositive
  else if ¬ msg.getConfidenceBigInt.any (fun c => 0 < c ∧ c ≤ defaultMaxConfidence) then
    .error .confidenceRange
  else .ok ()

end MsgSubmitPrice

/-- What a call of the module reads and writes: its store, the block and the operator
addresses of the staking module's validators. -/
structure State where
  store : Store
  block : Block
  validators : List (List UInt8)

namespace State

/-- `GetValidator` finds the operator address. -/
def isValidator (s : State) (account : List UInt8) : Bool := s.validators.contains account

/-- The state with another store. -/
def withStore (s : State) (store : Store) : State := { s with store }

/-- `MsgServer.SubmitPrice`. -/
def submitPrice (s : State) (msg : MsgSubmitPrice) : Except Err State :=
  match accAddressFromBech32 msg.signer with
  | none => .error .invalidSigner
  | some signerAddr =>
    if ¬ s.isValidator signerAddr then .error (.notValidator msg.signer)
    else
      let marketId := .ofBytes msg.marketId
      if 0 < s.store.getAllSupportedMarkets.length ∧ ¬ s.store.isSupportedMarket marketId then
        .error (.marketNotSupported marketId)
      else
        match msg.getPriceBigInt with
        | none => .error .priceString
        | some price =>
          match msg.getConfidenceBigInt with
          | none => .error .confidenceString
          | some confidence =>
            .ok (s.withStore (s.store.setPriceSubmission
              ⟨msg.signer, marketId, price, confidence, s.block.height, s.block.time⟩))

/-- A `MsgSubmitPrice` on its way into a block: `ValidateBasic`, then the handler. -/
def deliver (s : State) (msg : MsgSubmitPrice) : Except Err State := do
  msg.validateBasic
  s.submitPrice msg

end State

/-! ## The precompile path -/

/-- The errors of the precompile's `submitPrice`; its arguments are typed by the ABI. -/
inductive PrecompileErr where
  | notValidator (caller : List UInt8)
deriving DecidableEq

/-- `submitPrice` of the oracle precompile: `price` is an `int256` and `confidence` a
`uint256` of the call data. -/
def State.precompileSubmitPrice (s : State) (caller : Address) (marketId : MarketId)
    (price : Sint 256) (confidence : Uint 256) : Except PrecompileErr State :=
  if ¬ s.isValidator caller.bytes then .error (.notValidator (accAddressString caller.bytes))
  else
    .ok (s.withStore (s.store.setPriceSubmission
      ⟨accAddressString caller.bytes, marketId, price.val, confidence.val, s.block.height,
        s.block.time⟩))

/-! ## Genesis and runs -/

/-- `types.GenesisState`. -/
structure GenesisState where
  params : Params
  supportedMarkets : List SupportedMarket
  submissions : List PriceSubmission

/-- `InitGenesis` into an empty store; it panics on parameters that do not validate. -/
def initGenesis (gs : GenesisState) : Except String Store := do
  let store ← Store.setParams ∅ gs.params
  let store := gs.supportedMarkets.foldl .setSupportedMarket store
  return gs.submissions.foldl .setPriceSubmission store

/-- What happens to the module: an accepted message, an accepted call of the precompile,
or the rest of the chain moving on to another block with other validators. -/
inductive Label where
  | message (msg : MsgSubmitPrice)
  | precompile (caller : Address) (marketId : MarketId) (price : Sint 256)
      (confidence : Uint 256)
  | advance (block : Block) (validators : List (List UInt8))

/-- One step; a refused submission is no step. -/
def step (s : State) : Label → Option State
  | .message msg => (s.deliver msg).toOption
  | .precompile caller m price confidence =>
    (s.precompileSubmitPrice caller m price confidence).toOption
  | .advance block validators => some { s with block, validators }

/-- A chain whose genesis imports no submissions. -/
def State.Initial (s : State) : Prop :=
  ∃ gs : GenesisState, gs.submissions = [] ∧ initGenesis gs = .ok s.store

end HyperPax.Oracle
