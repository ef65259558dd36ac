/-
  PaxSpot/Exchange.lean --- `MatchingEngine.sol` over the settlement engine.

  An order is written once, in `placeOrder`, and then lives in one of four arrays of
  its market: the two resting books, which hold order ids, or the two batch queues,
  which hold offset, size and trader and no id.  Only the books are tied to the
  `orders` mapping again; a batch is dealt out of the queues alone.

  A call runs to the end or reverts and leaves no trace, so every function answers a
  new state or the reason of the revert.  The batch loop can run for ever; its
  `gas` bounds the number of iterations.

  The call of `computeClearing` is modelled on values: the precompile receives the two
  queues as they are.
-/
import HyperPax.PaxSpot.Custody
import HyperPax.PaxSpot.Pricing

set_option autoImplicit false

namespace HyperPax.PaxSpot

open Lib Function

/-- An entry of a batch queue with its trader; the source keeps the two in parallel arrays
that are pushed to and deleted together.  `orderId` is a history variable: the
source does not store which order an entry came from. -/
structure Queued where
  entry : Entry
  trader : Address
  orderId : Nat
deriving DecidableEq

/-- The storage of the matching engine. -/
structure Engine where
  self : Address
  owner : Address
  router : Address
  paused : Bool
  nextOrderId : Nat
  marketStates : MarketId → MarketState
  orders : Nat → Order
  buyOrderIds : MarketId → List Nat
  sellOrderIds : MarketId → List Nat
  batchBuys : MarketId → List Queued
  batchSells : MarketId → List Queued
  batchBlock : MarketId → Nat
  poFQScores : Address → Uint 256
  poFQWeights : Address → Uint 256

/-- The two contracts.  The fills executed and the orders cancelled so far are history
variables of the model. -/
structure Exchange extends Engine where
  custody : VaultRun
  fills : List Fill
  cancelled : List Nat

/-- What a call reads of the chain: its sender, the block, and the oracle's answer for a market,
which may be a revert. -/
structure Ctx where
  sender : Address
  block : Nat
  price : MarketId → Option (Sint 256)

/-- `PRICE_DECIMALS`. -/
def priceDecimals : Int := 10 ^ 18

namespace Exchange

/-- The storage of the settlement engine. -/
def settlement (x : Exchange) : Settlement := x.custody.vault.settlement

/-- The state with another settlement engine. -/
def withSettlement (x : Exchange) (s : Settlement) : Exchange :=
  { x with custody := { x.custody with vault := { x.custody.vault with settlement := s } } }

def modifyOrder (x : Exchange) (orderId : Nat) (f : Order → Order) : Exchange :=
  { x with orders := update x.orders orderId (f (x.orders orderId)) }

def deactivate (x : Exchange) (orderId : Nat) : Exchange :=
  x.modifyOrder orderId fun o => { o with active := false }

def setFilled (x : Exchange) (orderId : Nat) (filledSize : Uint 128) : Exchange :=
  x.modifyOrder orderId fun o => { o with filledSize := filledSize }

/-! ## Settling one fill -/

/-- `(price * int256(uint256(size))) / int256(PRICE_DECIMALS)`; the division cannot overflow. -/
def quoteOf (price : Sint 256) (size : Uint 128) : Except Revert (Sint 256) := do
  let product ← checked (price.mul? (int256 size))
  checked (Sint.check (product.val.tdiv priceDecimals))

/-- `_computeFee`. -/
def computeFee (quoteAmount : Sint 256) (feeBps : Uint 16) : Except Revert (Uint 256) := do
  let absQuote ← magnitude quoteAmount
  let scaled ← checked (Uint.check (w := 256) (absQuote.val * feeBps.val))
  return Uint.truncate (scaled.val / bpsDenominator)

/-- The four balance updates of a fill. -/
def settleLegs (s : Settlement) (self : Address) (market : MarketState) (buyer seller : Address)
    (fillSize : Uint 128) (quoteAmount : Sint 256) (takerFee : Uint 256) :
    Except Revert Settlement := do
  let s ← s.updateVirtualBalance self buyer market.baseToken (int256 fillSize)
  let owed ← checked quoteAmount.neg?
  let debit ← checked (owed.sub? (int256 takerFee))
  let s ← s.updateVirtualBalance self buyer market.quoteToken debit
  let given ← checked (int256 fillSize).neg?
  let s ← s.updateVirtualBalance self seller market.baseToken given
  s.updateVirtualBalance self seller market.quoteToken quoteAmount

/-- `_updatePoFQ`, with its decay of 100. -/
def updatePoFQ (x : Exchange) (trader : Address) (fillPrice oraclePrice : Sint 256)
    (fillSize : Uint 128) : Exchange :=
  let updated := updateRollingScore (x.poFQScores trader) (x.poFQWeights trader)
    (scoreFill fillPrice oraclePrice) fillSize.val 100
  { x with
    poFQScores := update x.poFQScores trader updated.1
    poFQWeights := update x.poFQWeights trader updated.2 }

/-- What `_executeFill` and `_settleBatchFill` have in common: amounts, balances, scores. -/
def settleFill (x : Exchange) (market : MarketState) (marketId : MarketId)
    (buyOrderId sellOrderId : Nat) (buyer seller : Address) (fillSize : Uint 128)
    (fillPrice oraclePrice : Sint 256) : Except Revert Exchange := do
  let quoteAmount ← quoteOf fillPrice fillSize
  let takerFee ← computeFee quoteAmount market.takerFeeBps
  let settlement ← settleLegs x.settlement x.self market buyer seller fillSize quoteAmount
    takerFee
  return { ((x.withSettlement settlement).updatePoFQ buyer fillPrice oraclePrice
      fillSize).updatePoFQ seller fillPrice oraclePrice fillSize with
    fills := x.fills ++ [{
      marketId := marketId
      baseToken := market.baseToken
      quoteToken := market.quoteToken
      buyOrderId := buyOrderId
      sellOrderId := sellOrderId
      buyer := buyer
      seller := seller
      size := fillSize
      price := fillPrice
      oraclePrice := oraclePrice
      quoteAmount := quoteAmount
      takerFee := takerFee }] }

/-! ## Continuous matching -/

/-- `_executeFill`.  Its first order is the incoming one, whatever its side. -/
def executeFill (x : Exchange) (incomingId restingId : Nat) (fillSize : Uint 128)
    (fillPrice oraclePrice : Sint 256) (market : MarketState) : Except Revert Exchange := do
  let incoming := x.orders incomingId
  let incomingFilled ← checked (incoming.filledSize.add? fillSize)
  let resting := (x.setFilled incomingId incomingFilled).orders restingId
  let restingFilled ← checked (resting.filledSize.add? fillSize)
  let filled := (x.setFilled incomingId incomingFilled).setFilled restingId restingFilled
  match incoming.side with
  | .buy =>
    filled.settleFill market incoming.marketId incomingId restingId incoming.trader
      resting.trader fillSize fillPrice oraclePrice
  | .sell =>
    filled.settleFill market incoming.marketId restingId incomingId resting.trader
      incoming.trader fillSize fillPrice oraclePrice

/-- `type(int256).max`. -/
def int256Max : Sint 256 := ⟨2 ^ 255 - 1, by decide, by decide⟩

/-- The price an incoming order crosses up to, or down to. -/
def incomingAbsPrice (incoming : Order) (oraclePrice : Sint 256) : Sint 256 :=
  match incoming.orderType, incoming.side with
  | .market, .buy => int256Max
  | .market, .sell => .zero
  | .limit, _ => resolveOffset oraclePrice incoming.offsetBps

/-- The incoming order accepts the resting price. -/
def PricesCross (side : Side) (incomingPrice restingPrice : Sint 256) : Prop :=
  match side with
  | .buy => restingPrice.val ≤ incomingPrice.val
  | .sell => incomingPrice.val ≤ restingPrice.val

instance (side : Side) (p q : Sint 256) : Decidable (PricesCross side p q) :=
  match side with
  | .buy => inferInstanceAs (Decidable (q.val ≤ p.val))
  | .sell => inferInstanceAs (Decidable (p.val ≤ q.val))

def minUint {w : Nat} (a b : Uint w) : Uint w := if a.val < b.val then a else b

/-- A full order is no longer active. -/
def closeIfFull (x : Exchange) (orderId : Nat) : Exchange :=
  if (x.orders orderId).size.val ≤ (x.orders orderId).filledSize.val then x.deactivate orderId
  else x

/-- One iteration of `_matchAgainstBook`; the second component is `remainingSize`. -/
def visit (incomingId : Nat) (incomingPrice oraclePrice : Sint 256) (market : MarketState)
    (state : Exchange × Uint 128) (restingId : Nat) : Except Revert (Exchange × Uint 128) :=
  let x := state.1
  let remainingSize := state.2
  let resting := x.orders restingId
  let restingPrice := resolveOffset oraclePrice resting.offsetBps
  if remainingSize.val = 0 ∨ resting.active = false then .ok (x, remainingSize)
  else do
    let restingRemaining ← checked (resting.size.sub? resting.filledSize)
    if restingRemaining.val = 0 then .ok (x.deactivate restingId, remainingSize)
    else if PricesCross (x.orders incomingId).side incomingPrice restingPrice then do
      let fillSize := minUint remainingSize restingRemaining
      let filled ← x.executeFill incomingId restingId fillSize restingPrice oraclePrice market
      let left ← checked (remainingSize.sub? fillSize)
      .ok (filled.closeIfFull restingId, left)
    else .ok (x, remainingSize)

/-- `_matchAgainstBook`. -/
def matchAgainstBook (x : Exchange) (incomingId : Nat) (opposingIds : List Nat)
    (oraclePrice : Sint 256) (market : MarketState) : Except Revert Exchange := do
  let incoming := x.orders incomingId
  let remainingSize ← checked (incoming.size.sub? incoming.filledSize)
  let state ← opposingIds.foldlM
    (visit incomingId (incomingAbsPrice incoming oraclePrice) oraclePrice market)
    (x, remainingSize)
  return state.1

/-- The end of `_tryContinuousMatch`: rest the remainder of a LIMIT order, close a full one. -/
def restOrClose (x : Exchange) (incomingId : Nat) : Exchange :=
  let incoming := x.orders incomingId
  if incoming.filledSize.val < incoming.size.val then
    match incoming.orderType, incoming.side with
    | .market, _ => x
    | .limit, .buy => { x with
        buyOrderIds := update x.buyOrderIds incoming.marketId
          (x.buyOrderIds incoming.marketId ++ [incomingId]) }
    | .limit, .sell => { x with
        sellOrderIds := update x.sellOrderIds incoming.marketId
          (x.sellOrderIds incoming.marketId ++ [incomingId]) }
  else x.deactivate incomingId

/-- The book an incoming order is matched against. -/
def opposingIds (x : Exchange) (side : Side) (marketId : MarketId) : List Nat :=
  match side with
  | .buy => x.sellOrderIds marketId
  | .sell => x.buyOrderIds marketId

/-- `_tryContinuousMatch`. -/
def tryContinuousMatch (ctx : Ctx) (x : Exchange) (incomingId : Nat) (market : MarketState) :
    Except Revert Exchange := do
  let incoming := x.orders incomingId
  let oraclePrice ← orRevert (ctx.price incoming.marketId) (.oracleUnavailable incoming.marketId)
  let x ← x.matchAgainstBook incomingId (x.opposingIds incoming.side incoming.marketId) oraclePrice
    market
  return x.restOrClose incomingId

/-! ## Batches -/

/-- `_addToBatch`. -/
def addToBatch (x : Exchange) (orderId : Nat) (trader : Address) (marketId : MarketId) (side : Side)
    (offsetBps : Sint 16) (size : Uint 128) : Exchange :=
  let queued : Queued := ⟨⟨offsetBps, size⟩, trader, orderId⟩
  match side with
  | .buy => { x with
      batchBuys := update x.batchBuys marketId (x.batchBuys marketId ++ [queued]) }
  | .sell => { x with
      batchSells := update x.batchSells marketId (x.batchSells marketId ++ [queued]) }

/-- `_minSize`. -/
def minSize (a b c : Uint 128) : Uint 128 :=
  let min := if a.val < b.val then a else b
  if min.val < c.val then min else c

/-- `_settleBatchFill`. -/
def settleBatchFill (x : Exchange) (marketId : MarketId) (buy sell : Queued) (fillSize : Uint 128)
    (clearingPrice oraclePrice : Sint 256) (market : MarketState) : Except Revert Exchange :=
  x.settleFill market marketId buy.orderId sell.orderId buy.trader sell.trader fillSize
    clearingPrice oraclePrice

/-- The queue from an index on, after the entry there has been filled to `size`: the index moves
past an entry with nothing left. -/
def advance (queued : Queued) (rest : List Queued) (size : Uint 128) : List Queued :=
  if size.val = 0 then rest
  else { queued with entry := { queued.entry with size := size } } :: rest

/-- `_executeBatchFills`.  The two lists are the queues from `buyIdx` and from `sellIdx` on. -/
def executeBatchFills (marketId : MarketId) (clearingPrice oraclePrice : Sint 256)
    (market : MarketState) :
    Nat → Uint 256 → List Queued → List Queued → Exchange → Except Revert Exchange
  | gas, remainingVolume, buy :: buys, sell :: sells, x =>
    if remainingVolume.val = 0 then .ok x
    else match gas with
      | 0 => .error .outOfGas
      | gas + 1 => do
        let fillSize := minSize buy.entry.size sell.entry.size
          (.truncate remainingVolume.val)
        let x ← x.settleBatchFill marketId buy sell fillSize clearingPrice oraclePrice market
        let remainingVolume ← checked (remainingVolume.sub? (.truncate fillSize.val))
        let buySize ← checked (buy.entry.size.sub? fillSize)
        let sellSize ← checked (sell.entry.size.sub? fillSize)
        executeBatchFills marketId clearingPrice oraclePrice market gas remainingVolume
          (advance buy buys buySize) (advance sell sells sellSize) x
  | _, _, _, _, x => .ok x

/-- `_clearBatchState`. -/
def clearBatchState (x : Exchange) (marketId : MarketId) : Exchange :=
  { x with
    batchBuys := update x.batchBuys marketId []
    batchSells := update x.batchSells marketId [] }

/-! ## External functions -/

/-- The check on the offset of a LIMIT order; the negation of `-32768` panics. -/
def checkOffset (orderType : OrderType) (offsetBps maxOffsetBps : Sint 16) :
    Except Revert Unit :=
  match orderType with
  | .market => .ok ()
  | .limit => do
    let absOffset ← if 0 ≤ offsetBps.val then .ok offsetBps else checked offsetBps.neg?
    require (¬ absOffset.val > maxOffsetBps.val) (.offsetExceedsMax offsetBps maxOffsetBps)

/-- The order `placeOrder` writes. -/
def newOrder (ctx : Ctx) (orderId : Nat) (trader : Address) (marketId : MarketId) (side : Side)
    (orderType : OrderType) (offsetBps : Sint 16) (size : Uint 128) : Order where
  id := orderId
  trader := trader
  marketId := marketId
  side := side
  orderType := orderType
  offsetBps := offsetBps
  size := size
  filledSize := .zero
  blockSubmitted := ctx.block
  active := true

/-- Write a new order under the next id. -/
def writeOrder (x : Exchange) (order : Order) : Exchange :=
  { x with
    nextOrderId := x.nextOrderId + 1
    orders := update x.orders x.nextOrderId order }

/-- `placeOrder`: an order is written, then matched or queued. -/
def placeOrder (ctx : Ctx) (x : Exchange) (trader : Address) (marketId : MarketId) (side : Side)
    (orderType : OrderType) (offsetBps : Sint 16) (size : Uint 128) : Except Revert Exchange := do
  require (ctx.sender = x.router) .onlyRouter
  require (x.paused = false) .enforcedPause
  let market := x.marketStates marketId
  require market.active (.marketNotActive marketId)
  require (¬ size.val < market.minOrderSize.val) (.orderSizeTooSmall size market.minOrderSize)
  checkOffset orderType offsetBps market.maxOffsetBps
  let orderId := x.nextOrderId
  let written := x.writeOrder
    (newOrder ctx orderId trader marketId side orderType offsetBps size)
  match market.mode with
  | .continuous => written.tryContinuousMatch ctx orderId market
  | .batch => return written.addToBatch orderId trader marketId side offsetBps size

/-- `cancelOrder`: books and queues keep the order. -/
def cancelOrder (ctx : Ctx) (x : Exchange) (orderId : Nat) (trader : Address) :
    Except Revert Exchange := do
  require (ctx.sender = x.router) .onlyRouter
  require (x.orders orderId).active (.orderNotActive orderId)
  require ((x.orders orderId).trader = trader) (.notOrderOwner orderId)
  return { x.deactivate orderId with cancelled := x.cancelled ++ [orderId] }

/-- `clearBatch`: the queues of a market are priced, filled and emptied. -/
def clearBatch (ctx : Ctx) (gas : Nat) (x : Exchange) (marketId : MarketId) :
    Except Revert Exchange := do
  require (x.paused = false) .enforcedPause
  let market := x.marketStates marketId
  require market.active (.marketNotActive marketId)
  require (market.mode = .batch) (.batchNotReady marketId)
  require (¬ x.batchBlock marketId ≥ ctx.block) (.batchNotReady marketId)
  let buys := x.batchBuys marketId
  let sells := x.batchSells marketId
  if buys = [] ∨ sells = [] then return x.clearBatchState marketId
  else do
    let oraclePrice ← orRevert (ctx.price marketId) (.oracleUnavailable marketId)
    let clearing := computeClearing oraclePrice (buys.map Queued.entry) (sells.map Queued.entry)
    -- no volume, no iteration: the loop is entered with nothing remaining
    let x ← executeBatchFills marketId clearing.price oraclePrice market gas
      clearing.matchedVolume buys sells x
    return { x.clearBatchState marketId with
      batchBlock := update x.batchBlock marketId ctx.block }

/-- `createMarket`. -/
def createMarket (x : Exchange) (sender : Address) (marketId : MarketId)
    (baseToken quoteToken : Address) (mode : MarketMode) (minOrderSize : Uint 128)
    (maxOffsetBps : Sint 16) (takerFeeBps : Uint 16) : Except Revert Exchange := do
  require (sender = x.owner) (.ownableUnauthorizedAccount sender)
  require ((x.marketStates marketId).active = false) (.marketAlreadyExists marketId)
  require (¬ (baseToken = .zero ∨ quoteToken = .zero)) .invalidMarketParams
  require (¬ (maxOffsetBps.val ≤ 0 ∨ takerFeeBps.val > 100)) .invalidMarketParams
  return { x with
    marketStates := update x.marketStates marketId {
      marketId := marketId
      baseToken := baseToken
      quoteToken := quoteToken
      mode := mode
      active := true
      minOrderSize := minOrderSize
      maxOffsetBps := maxOffsetBps
      takerFeeBps := takerFeeBps } }

/-- `setMarketMode`. -/
def setMarketMode (x : Exchange) (sender : Address) (marketId : MarketId) (newMode : MarketMode) :
    Except Revert Exchange := do
  require (sender = x.owner) (.ownableUnauthorizedAccount sender)
  require (x.marketStates marketId).active (.marketNotActive marketId)
  return { x with
    marketStates := update x.marketStates marketId
      { x.marketStates marketId with mode := newMode } }

def setRouter (x : Exchange) (sender router : Address) : Except Revert Exchange := do
  require (sender = x.owner) (.ownableUnauthorizedAccount sender)
  return { x with router := router }

def pause (x : Exchange) (sender : Address) : Except Revert Exchange := do
  require (sender = x.owner) (.ownableUnauthorizedAccount sender)
  require (x.paused = false) .enforcedPause
  return { x with paused := true }

def unpause (x : Exchange) (sender : Address) : Except Revert Exchange := do
  require (sender = x.owner) (.ownableUnauthorizedAccount sender)
  require x.paused .expectedPause
  return { x with paused := false }

/-- The constructor, over a settlement engine. -/
def start (self owner : Address) (custody : VaultRun) : Exchange where
  self := self
  owner := owner
  router := .zero
  paused := false
  nextOrderId := 1
  marketStates := fun _ => .unwritten
  orders := fun _ => .unwritten
  buyOrderIds := fun _ => []
  sellOrderIds := fun _ => []
  batchBuys := fun _ => []
  batchSells := fun _ => []
  batchBlock := fun _ => 0
  poFQScores := fun _ => .zero
  poFQWeights := fun _ => .zero
  custody := custody
  fills := []
  cancelled := []

end Exchange

/-! ## Runs -/

/-- The external calls. -/
inductive Label where
  | placeOrder (ctx : Ctx) (trader : Address) (marketId : MarketId) (side : Side)
      (orderType : OrderType) (offsetBps : Sint 16) (size : Uint 128)
  | cancelOrder (ctx : Ctx) (orderId : Nat) (trader : Address)
  | clearBatch (ctx : Ctx) (gas : Nat) (marketId : MarketId)
  | createMarket (sender : Address) (marketId : MarketId) (baseToken quoteToken : Address)
      (mode : MarketMode) (minOrderSize : Uint 128) (maxOffsetBps : Sint 16) (takerFeeBps : Uint 16)
  | setMarketMode (sender : Address) (marketId : MarketId) (newMode : MarketMode)
  | setRouter (sender router : Address)
  | pause (sender : Address)
  | unpause (sender : Address)
  /-- a call of the settlement engine, or a transfer of its tokens -/
  | custody (op : VaultOp)

namespace Exchange

/-- Position updates come from fills only. -/
def custodyStep (x : Exchange) : VaultOp → Option Exchange
  | .call (.updateVirtualBalance ..) => none
  | op => (x.custody.step op).map fun custody => { x with custody := custody }

/-- One external call; a revert is no step. -/
def step (x : Exchange) : Label → Option Exchange
  | .placeOrder ctx trader marketId side orderType offsetBps size =>
    (x.placeOrder ctx trader marketId side orderType offsetBps size).toOption
  | .cancelOrder ctx orderId trader => (x.cancelOrder ctx orderId trader).toOption
  | .clearBatch ctx gas marketId => (x.clearBatch ctx gas marketId).toOption
  | .createMarket sender marketId baseToken quoteToken mode minOrderSize maxOffsetBps takerFeeBps =>
    (x.createMarket sender marketId baseToken quoteToken mode minOrderSize maxOffsetBps
      takerFeeBps).toOption
  | .setMarketMode sender marketId newMode => (x.setMarketMode sender marketId newMode).toOption
  | .setRouter sender router => (x.setRouter sender router).toOption
  | .pause sender => (x.pause sender).toOption
  | .unpause sender => (x.unpause sender).toOption
  | .custody op => x.custodyStep op

end Exchange

end HyperPax.PaxSpot
