/-
  PaxSpot/Steps.lean --- what one external call did.

  Three calls touch orders, arrays and fills: `placeOrder`, `cancelOrder` and `clearBatch`.
  The calls of the owner (`Administered`) and of the settlement engine leave the trading
  state as it is.
-/
import HyperPax.PaxSpot.Batch
import HyperPax.PaxSpot.Clearing

set_option autoImplicit false

namespace HyperPax.PaxSpot

open Lib Function

namespace Exchange

/-- The arrays of the books and queues, and the id counter. -/
def arrays (x : Exchange) : Nat × (MarketId → List Nat) × (MarketId → List Nat) ×
    (MarketId → List Queued) × (MarketId → List Queued) :=
  (x.nextOrderId, x.buyOrderIds, x.sellOrderIds, x.batchBuys, x.batchSells)

/-- The resting book of a side. -/
def book (x : Exchange) (side : Side) (marketId : MarketId) : List Nat :=
  match side with
  | .buy => x.buyOrderIds marketId
  | .sell => x.sellOrderIds marketId

/-- The batch queue of a side. -/
def queue (x : Exchange) (side : Side) (marketId : MarketId) : List Queued :=
  match side with
  | .buy => x.batchBuys marketId
  | .sell => x.batchSells marketId

/-- All that trading reads and writes, but balances and scores. -/
def trading (x : Exchange) : (Nat × (MarketId → List Nat) × (MarketId → List Nat) ×
    (MarketId → List Queued) × (MarketId → List Queued)) × (Nat → Order) × List Fill × List Nat :=
  (x.arrays, x.orders, x.fills, x.cancelled)

end Exchange

namespace BookedAll

variable {market : MarketState} {F : List Fill} {x y : Exchange}

variable (h : BookedAll market x F y)

include h

theorem arrays : y.arrays = x.arrays :=
  congrArg (fun p : Engine × List Nat => (p.1.nextOrderId, p.1.buyOrderIds, p.1.sellOrderIds,
    p.1.batchBuys, p.1.batchSells)) h.frame

theorem cancelled : y.cancelled = x.cancelled :=
  congrArg Prod.snd h.frame

theorem marketStates : y.marketStates = x.marketStates :=
  congrArg (fun p : Engine × List Nat => p.1.marketStates) h.frame

end BookedAll

namespace Exchange

section

variable {x y : Exchange} (h : y.arrays = x.arrays)

include h

theorem book_of_arrays (side : Side) (m : MarketId) : y.book side m = x.book side m := by
  cases side
  · exact congrFun (congrArg (·.2.1) h) m
  · exact congrFun (congrArg (·.2.2.1) h) m

theorem queue_of_arrays (side : Side) (m : MarketId) : y.queue side m = x.queue side m := by
  cases side
  · exact congrFun (congrArg (·.2.2.2.1) h) m
  · exact congrFun (congrArg (·.2.2.2.2) h) m

theorem nextOrderId_of_arrays : y.nextOrderId = x.nextOrderId :=
  congrArg Prod.fst h

end

/-! ## Inversions -/

variable {x x' : Exchange} {ctx : Ctx} {trader : Address} {marketId : MarketId} {side : Side}
  {orderType : OrderType} {offsetBps : Sint 16} {size : Uint 128}

theorem checkOffset_ok {maxOffsetBps : Sint 16} {u : Unit}
    (h : checkOffset orderType offsetBps maxOffsetBps = .ok u) :
    orderType = .limit → |offsetBps.val| ≤ maxOffsetBps.val := by
  rintro rfl
  rw [checkOffset] at h
  split at h
  · rename_i hpos
    obtain ⟨absOffset, habs, h⟩ := bind_ok.mp h
    cases habs
    rw [abs_of_nonneg hpos]
    exact not_lt.mp (require_ok.mp h)
  · rename_i hneg
    obtain ⟨_, habs, h⟩ := orRevert_bind_ok.mp h
    rw [abs_of_neg (not_le.mp hneg), ← Sint.neg?_eq_some.mp habs]
    exact not_lt.mp (require_ok.mp h)

/-- The state in which the new order is matched: it has been written, nothing else. -/
def written (ctx : Ctx) (x : Exchange) (trader : Address) (marketId : MarketId) (side : Side)
    (orderType : OrderType) (offsetBps : Sint 16) (size : Uint 128) : Exchange :=
  x.writeOrder (newOrder ctx x.nextOrderId trader marketId side orderType offsetBps size)

/-- Push an order to the resting book of a side. -/
def rest (x : Exchange) (side : Side) (marketId : MarketId) (orderId : Nat) : Exchange :=
  match side with
  | .buy => { x with
      buyOrderIds := update x.buyOrderIds marketId (x.buyOrderIds marketId ++ [orderId]) }
  | .sell => { x with
      sellOrderIds := update x.sellOrderIds marketId
        (x.sellOrderIds marketId ++ [orderId]) }

theorem restOrClose_cases (x : Exchange) (id : Nat) :
    ((x.orders id).size.val ≤ (x.orders id).filledSize.val ∧ x.restOrClose id = x.deactivate id) ∨
    ((x.orders id).filledSize.val < (x.orders id).size.val ∧ (x.orders id).orderType = .limit ∧
      x.restOrClose id = x.rest (x.orders id).side (x.orders id).marketId id) ∨
    ((x.orders id).filledSize.val < (x.orders id).size.val ∧ (x.orders id).orderType = .market ∧
      x.restOrClose id = x) := by
  unfold restOrClose
  dsimp only
  split
  · rename_i hopen
    cases htype : (x.orders id).orderType with
    | market => exact .inr (.inr ⟨hopen, rfl, rfl⟩)
    | limit =>
      refine .inr (.inl ⟨hopen, rfl, ?_⟩)
      cases hside : (x.orders id).side <;> rfl
  · rename_i hfull
    exact .inl ⟨not_lt.mp hfull, rfl⟩

/-- A continuous placement: the loop over the opposing book ran to its end. -/
structure Walked (ctx : Ctx) (x : Exchange) (trader : Address) (marketId : MarketId) (side : Side)
    (orderType : OrderType) (offsetBps : Sint 16) (size : Uint 128) (oraclePrice : Sint 256)
    (y : Exchange) (left : Uint 128) : Prop where
  mode : (x.marketStates marketId).mode = .continuous
  price : ctx.price marketId = some oraclePrice
  walk : (x.opposingIds side marketId).foldlM
    (visit x.nextOrderId (incomingAbsPrice
        (newOrder ctx x.nextOrderId trader marketId side orderType offsetBps size) oraclePrice)
      oraclePrice (x.marketStates marketId))
    (x.written ctx trader marketId side orderType offsetBps size, size) = .ok (y, left)

/-- The market takes the order. -/
structure Accepted (x : Exchange) (marketId : MarketId) (orderType : OrderType)
    (offsetBps : Sint 16) (size : Uint 128) : Prop where
  active : (x.marketStates marketId).active
  minOrderSize : (x.marketStates marketId).minOrderSize.val ≤ size.val
  maxOffsetBps : orderType = .limit →
    |offsetBps.val| ≤ (x.marketStates marketId).maxOffsetBps.val

theorem placeOrder_ok
    (h : x.placeOrder ctx trader marketId side orderType offsetBps size = .ok x') :
    Accepted x marketId orderType offsetBps size ∧ ((∃ oracle y left,
        Walked ctx x trader marketId side orderType offsetBps size oracle y left ∧
        x' = y.restOrClose x.nextOrderId) ∨ ((x.marketStates marketId).mode = .batch ∧
        x' = (x.written ctx trader marketId side orderType offsetBps size).addToBatch
          x.nextOrderId trader marketId side offsetBps size)) := by
  have h := of_require h
  have h := of_require h
  obtain ⟨hactive, h⟩ := require_bind_ok.mp h
  obtain ⟨hmin, h⟩ := require_bind_ok.mp h
  obtain ⟨_, hoffset, h⟩ := bind_ok.mp h
  refine ⟨⟨hactive, not_lt.mp hmin, checkOffset_ok hoffset⟩, ?_⟩
  split at h
  · rename_i hmode
    have horder : (x.written ctx trader marketId side orderType offsetBps size).orders
        x.nextOrderId =
        newOrder ctx x.nextOrderId trader marketId side orderType offsetBps size :=
      update_self _ _ _
    change (x.written ctx trader marketId side orderType offsetBps size).tryContinuousMatch ctx
      x.nextOrderId (x.marketStates marketId) = .ok x' at h
    obtain ⟨oracle, hprice, h⟩ := orRevert_bind_ok.mp h
    obtain ⟨_, hmatch, h⟩ := bind_ok.mp h
    cases h
    obtain ⟨remaining, hrem, hmatch⟩ := orRevert_bind_ok.mp hmatch
    obtain ⟨⟨y', left⟩, hwalk, hmatch⟩ := bind_ok.mp hmatch
    cases hmatch
    rw [horder] at hprice hrem hwalk
    obtain rfl : remaining = size := Uint.ext (Uint.sub?_eq_some.mp hrem)
    exact .inl ⟨oracle, y', left, ⟨hmode, hprice, hwalk⟩, rfl⟩
  · rename_i hmode
    cases h
    exact .inr ⟨hmode, rfl⟩

theorem cancelOrder_ok {orderId : Nat} (h : x.cancelOrder ctx orderId trader = .ok x') :
    (x.orders orderId).active ∧
      x' = { x.deactivate orderId with cancelled := x.cancelled ++ [orderId] } := by
  have h := of_require h
  obtain ⟨hactive, h⟩ := require_bind_ok.mp h
  have h := of_require h
  cases h
  exact ⟨hactive, rfl⟩

/-- The answer of the precompile for the two queues of a market. -/
def clearing (x : Exchange) (oraclePrice : Sint 256) (marketId : MarketId) : Clearing :=
  computeClearing oraclePrice ((x.batchBuys marketId).map Queued.entry)
    ((x.batchSells marketId).map Queued.entry)

/-- Note the block of a clearing. -/
def stampBatch (x : Exchange) (marketId : MarketId) (block : Nat) : Exchange :=
  { x with batchBlock := update x.batchBlock marketId block }

theorem clearBatch_ok {gas : Nat} (h : x.clearBatch ctx gas marketId = .ok x') :
    (x.marketStates marketId).active ∧ (x.marketStates marketId).mode = .batch ∧
    (((x.batchBuys marketId = [] ∨ x.batchSells marketId = []) ∧ x' = x.clearBatchState marketId) ∨
      (x.batchBuys marketId ≠ [] ∧ x.batchSells marketId ≠ [] ∧
        ∃ oracle y F, ctx.price marketId = some oracle ∧
          Dealt marketId (x.clearing oracle marketId).price oracle
            (x.marketStates marketId) (x.clearing oracle marketId).matchedVolume.val
            (x.batchBuys marketId) (x.batchSells marketId) x F y ∧
          x' = (y.clearBatchState marketId).stampBatch marketId ctx.block)) := by
  have h := of_require h
  obtain ⟨hactive, h⟩ := require_bind_ok.mp h
  obtain ⟨hmode, h⟩ := require_bind_ok.mp h
  have h := of_require h
  refine ⟨hactive, hmode, ?_⟩
  dsimp only at h
  split at h
  · rename_i hempty
    cases h
    exact .inl ⟨hempty, rfl⟩
  rename_i hfull
  push Not at hfull
  obtain ⟨oracle, hprice, h⟩ := orRevert_bind_ok.mp h
  obtain ⟨y, hdeal, h⟩ := bind_ok.mp h
  cases h
  obtain ⟨hbuys, hsells⟩ := matchedVolume_le oracle
    ((x.batchBuys marketId).map Queued.entry) ((x.batchSells marketId).map Queued.entry)
  obtain ⟨F, hF⟩ := executeBatchFills_ok hdeal hbuys hsells
  exact .inr ⟨hfull.1, hfull.2, oracle, y, F, hprice, hF, rfl⟩

end Exchange

variable {x x' : Exchange}

theorem custodyStep_some {op : VaultOp} (h : x.custodyStep op = some x') :
    (∀ sender user token delta, op ≠ .call (.updateVirtualBalance sender user token delta)) ∧
      ∃ custody, x.custody.step op = some custody ∧ x' = { x with custody := custody } := by
  unfold Exchange.custodyStep at h
  split at h
  · cases h
  rename_i hop
  obtain ⟨custody, hcustody, rfl⟩ := Option.map_eq_some_iff.mp h
  exact ⟨fun _ _ _ _ heq => hop _ _ _ _ heq, custody, hcustody, rfl⟩

/-- The owner's calls. -/
def Label.Administrative : Label → Prop
  | .createMarket .. | .setMarketMode .. | .setRouter .. | .pause .. | .unpause .. => True
  | _ => False

/-- What the owner's calls do: trading and custody are left alone, a market that is active keeps
all but its mode, and another becomes active only by being created. -/
structure Administered (x : Exchange) (l : Label) (x' : Exchange) : Prop where
  trading : x'.trading = x.trading
  custody : x'.custody = x.custody
  markets : ∀ m, (x.marketStates m).active →
    ∃ mode, x'.marketStates m = { x.marketStates m with mode := mode }
  created : ∀ m, (x'.marketStates m).active → (x.marketStates m).active ∨
    ∃ sender mode minOrderSize maxOffsetBps, l = .createMarket sender m
      (x'.marketStates m).baseToken (x'.marketStates m).quoteToken mode minOrderSize maxOffsetBps
      (x'.marketStates m).takerFeeBps

theorem administered_of_step {l : Label} (hl : l.Administrative) (h : x.step l = some x') :
    Administered x l x' := by
  cases l with
  | placeOrder | cancelOrder | clearBatch | custody => exact hl.elim
  | createMarket sender marketId _ _ mode minOrderSize maxOffsetBps =>
    have h := toOption_eq_some.mp h
    have h := of_require h
    obtain ⟨hinact, h⟩ := require_bind_ok.mp h
    have h := of_require h
    have h := of_require h
    cases h
    refine ⟨rfl, rfl, fun m hactive => ⟨(x.marketStates m).mode, ?_⟩, fun m hactive => ?_⟩
    · -- an active market is not the one created
      have hne : m ≠ marketId := by
        rintro rfl
        rw [hinact] at hactive
        cases hactive
      exact update_of_ne hne _ _
    · by_cases hm : m = marketId
      · subst hm
        refine .inr ⟨sender, mode, minOrderSize, maxOffsetBps, ?_⟩
        simp only [update_self]
      · left
        simpa only [update_of_ne hm] using hactive
  | setMarketMode _ marketId newMode =>
    have h := toOption_eq_some.mp h
    have h := of_require h
    obtain ⟨hactive, h⟩ := require_bind_ok.mp h
    cases h
    refine ⟨rfl, rfl, fun m _ => ?_, fun m hm => .inl ?_⟩
    · by_cases hm : m = marketId
      · subst hm
        exact ⟨newMode, update_self _ _ _⟩
      · exact ⟨(x.marketStates m).mode, update_of_ne hm _ _⟩
    by_cases heq : m = marketId
    · subst heq
      exact hactive
    · simpa only [update_of_ne heq] using hm
  | setRouter =>
    have h := toOption_eq_some.mp h
    have h := of_require h
    cases h
    exact ⟨rfl, rfl, fun m _ => ⟨_, rfl⟩, fun m hm => .inl hm⟩
  | pause sender | unpause sender =>
    have h := toOption_eq_some.mp h
    have h := of_require h
    have h := of_require h
    cases h
    exact ⟨rfl, rfl, fun m _ => ⟨_, rfl⟩, fun m hm => .inl hm⟩

namespace Administered

variable {x x' : Exchange} {l : Label}

variable (h : Administered x l x')

include h

theorem arrays : x'.arrays = x.arrays := congrArg Prod.fst h.trading

theorem orders : x'.orders = x.orders :=
  congrArg (fun t => t.2.1) h.trading

theorem fills : x'.fills = x.fills :=
  congrArg (fun t => t.2.2.1) h.trading

theorem cancelled : x'.cancelled = x.cancelled :=
  congrArg (fun t => t.2.2.2) h.trading

end Administered

end HyperPax.PaxSpot
