/-
  PaxSpot/Executions.lean --- the fills of one step of the exchange.

  Fills come from two places.  `placeOrder` in continuous mode takes resting entries at their
  own price, and only active ones that cross.  `clearBatch` deals the matched volume
  out from the front of both queues at the clearing price (`newFills_cases`).  Either way
  a fill is settled by the terms of its market (`BilledBy`), is between a buy and a
  sell of it (`Sided`), and is all that moves balances (`MovedByFills`).
-/
import HyperPax.PaxSpot.Book

set_option autoImplicit false

namespace HyperPax.PaxSpot

open Lib PaxSpot.Order List

namespace Exchange

variable {x x' z y : Exchange} {l : Label} {F : List Fill} {m : MarketId} {f : Fill}
  {self owner trader : Address} {custody : VaultRun} {side : Side} {id : Nat}

/-! ## The fills of one step -/

/-- The fills executed between two states of a run. -/
def newFills (x x' : Exchange) : List Fill := x'.fills.drop x.fills.length

theorem newFills_of_append (h : x'.fills = x.fills ++ F) : newFills x x' = F := by
  rw [newFills, h, drop_left]

theorem newFills_of_eq (h : x'.fills = x.fills) : newFills x x' = [] :=
  newFills_of_append (h.trans (append_nil _).symm)

theorem newFills_cases (hx : x.WellFormed) (h : x.step l = some x') :
    x'.fills = x.fills ++ newFills x x' ∧
      ((∃ ctx trader m side orderType offsetBps size oracle y left,
      l = .placeOrder ctx trader m side orderType offsetBps size ∧
      ((x.marketStates m).active ∧ (x.marketStates m).mode = .continuous ∧
        ctx.price m = some oracle) ∧
      SweptFor ctx x trader m side orderType offsetBps size oracle (newFills x x') y left ∧
      x' = y.restOrClose x.nextOrderId) ∨ (∃ ctx gas m oracle y, l = .clearBatch ctx gas m ∧
      ((x.marketStates m).active ∧ ctx.price m = some oracle) ∧
      Dealt m (x.clearing oracle m).price oracle (x.marketStates m)
        (x.clearing oracle m).matchedVolume.val (x.batchBuys m) (x.batchSells m) x
        (newFills x x') y ∧ x'.orders = x.orders ∧ x'.cancelled = x.cancelled) ∨
    (newFills x x' = [] ∧
      ∀ ctx gas m, l = .clearBatch ctx gas m → x.batchBuys m = [] ∨ x.batchSells m = [])) := by
  have hidle : ∀ {z : Exchange}, z.fills = x.fills → z.fills = x.fills ++ newFills x z := by
    intro _ hz
    rw [newFills_of_eq hz, hz, append_nil]
  cases effect_of_step hx h with
  | swept ctx trader m side orderType offsetBps size oracle F y left haccepted hmode hprice hF =>
    have hfills := (quiet_restOrClose y x.nextOrderId).fills.trans hF.booked.fills
    have hnew : newFills x (y.restOrClose x.nextOrderId) = F := newFills_of_append hfills
    refine ⟨hnew.symm ▸ hfills, .inl ⟨ctx, trader, m, side, orderType, offsetBps, size,
      oracle, y, left, rfl, ⟨haccepted.active, hmode, hprice⟩, ?_, rfl⟩⟩
    rw [hnew]
    exact hF
  | queued ctx trader m side orderType offsetBps size =>
    have hfills := ((x.written ctx trader m side orderType offsetBps size).quiet_addToBatch side m
      x.nextOrderId trader offsetBps size).fills
    exact ⟨hidle hfills, .inr (.inr ⟨newFills_of_eq hfills, fun _ _ _ heq => nomatch heq⟩)⟩
  | cancelled | custody =>
    exact ⟨hidle rfl, .inr (.inr ⟨newFills_of_eq rfl, fun _ _ _ heq => nomatch heq⟩)⟩
  | emptied _ _ _ hempty =>
    refine ⟨hidle rfl, .inr (.inr ⟨newFills_of_eq rfl, ?_⟩)⟩
    rintro _ _ _ heq
    cases heq
    exact hempty
  | dealt ctx gas m oracle F y hactive hprice hF =>
    have hfills : ((y.clearBatchState m).stampBatch m ctx.block).fills = x.fills ++ F :=
      hF.booked.fills
    have hnew := newFills_of_append hfills
    refine ⟨hnew.symm ▸ hfills, .inr (.inl ⟨ctx, gas, m, oracle, y, rfl, ⟨hactive, hprice⟩,
      ?_, hF.orders, hF.booked.cancelled⟩)⟩
    rw [hnew]
    exact hF
  | administered _ _ hl hadmin =>
    refine ⟨hidle hadmin.fills, .inr (.inr ⟨newFills_of_eq hadmin.fills, ?_⟩)⟩
    rintro _ _ _ rfl
    exact hl.elim

theorem clearing_of_empty (h : x.batchBuys m = [] ∨ x.batchSells m = []) (oracle : Sint 256) :
    (x.clearing oracle m).matchedVolume.val = 0 := by
  unfold clearing computeClearing
  rw [if_pos]
  · rfl
  rcases h with h | h
  · exact .inl (by rw [h]; rfl)
  · exact .inr (.inl (by rw [h]; rfl))

/-- The fill was settled by the terms of its market. -/
structure BilledBy (x : Exchange) (f : Fill) : Prop where
  active : (x.marketStates f.marketId).active
  baseToken : f.baseToken = (x.marketStates f.marketId).baseToken
  quoteToken : f.quoteToken = (x.marketStates f.marketId).quoteToken
  quoteAmount : f.quoteAmount.val = (f.price.val * f.size.val).tdiv priceDecimals
  takerFee : (f.takerFee.val : Int) =
    |f.quoteAmount.val| * (x.marketStates f.marketId).takerFeeBps.val / 10000

theorem billedBy_of_booked (h : BookedAll (x.marketStates m) z F y)
    (hactive : (x.marketStates m).active) (hf : f ∈ F) (hm : f.marketId = m) : x.BilledBy f := by
  subst hm
  obtain ⟨hbase, hquote⟩ := h.tokens f hf
  obtain ⟨hamount, hfee⟩ := h.amounts f hf
  exact ⟨hactive, hbase, hquote, hamount, hfee⟩

theorem billedBy_of_step (hx : x.WellFormed) (h : x.step l = some x') :
    ∀ f ∈ newFills x x', x.BilledBy f := by
  intro f hf
  obtain ⟨-, hcases⟩ := newFills_cases hx h
  rcases hcases with
    ⟨_, _, _, _, _, _, _, _, _, _, -, ⟨hactive, -⟩, hF, -⟩ |
    ⟨_, _, _, _, _, -, ⟨hactive, -⟩, hF, -⟩ | ⟨hnone, -⟩
  · obtain ⟨_, -, htaken⟩ := hF.taken f hf
    refine billedBy_of_booked hF.booked hactive hf ?_
    rw [htaken.marketId, written_self]
    rfl
  · exact billedBy_of_booked hF.booked hactive hf (hF.price f hf).1
  · rw [hnone] at hf
    cases hf

theorem BilledBy.step (hf : x.BilledBy f) (hx : x.WellFormed) (h : x.step l = some x') :
    x'.BilledBy f := by
  rcases markets_of_step hx h with hsame | hadmin
  · obtain ⟨hactive, hbase, hquote, hamount, hfee⟩ := hf
    rw [← hsame] at hactive hbase hquote hfee
    exact ⟨hactive, hbase, hquote, hamount, hfee⟩
  obtain ⟨_, hmode⟩ := hadmin.markets f.marketId hf.active
  refine ⟨?_, ?_, ?_, hf.quoteAmount, ?_⟩
  · rw [hmode]
    exact hf.active
  · rw [hmode]
    exact hf.baseToken
  · rw [hmode]
    exact hf.quoteToken
  · rw [hmode]
    exact hf.takerFee

theorem Reachable.billedBy (h : Reachable self owner custody x) : ∀ f ∈ x.fills, x.BilledBy f := by
  have hboth : x.WellFormed ∧ ∀ f ∈ x.fills, x.BilledBy f := by
    refine h.invariant (I := fun x => x.WellFormed ∧ ∀ f ∈ x.fills, x.BilledBy f) ?_
      ⟨wellFormed_start self owner custody, fun _ hf => absurd hf not_mem_nil⟩
    rintro _ _ _ ⟨hy, hbilled⟩ - hstep
    refine ⟨hy.step hstep, fun f hf => ?_⟩
    rw [(newFills_cases hy hstep).1] at hf
    rcases mem_append.mp hf with hf | hf
    · exact (hbilled f hf).step hy hstep
    · exact (billedBy_of_step hy hstep f hf).step hy hstep
  exact hboth.2

/-! ## The balances after one step -/

/-- From `x` to `x'` the settlement engine was moved by the new fills alone. -/
structure MovedByFills (x x' : Exchange) : Prop where
  custody : x'.custody = (x.withSettlement x'.settlement).custody
  collateral : x'.settlement.depositedCollateral = x.settlement.depositedCollateral
  virtualBalances : ∀ user token, (x'.settlement.virtualBalances user token).val =
    (x.settlement.virtualBalances user token).val +
      ((newFills x x').map fun f => f.leg user token).sum

theorem movedByFills_of_booked {market : MarketState} (h : BookedAll market z (newFills x x') y)
    (hz : z.custody = x.custody) (hy : x'.custody = y.custody) : MovedByFills x x' := by
  have hsettlement : x'.settlement = y.settlement := congrArg (fun c => c.vault.settlement) hy
  have hbefore : z.settlement = x.settlement := congrArg (fun c => c.vault.settlement) hz
  refine ⟨?_, ?_, ?_⟩
  · rw [hy, h.custody, hsettlement]
    exact congrArg (fun c : VaultRun => { c with vault := { c.vault with
      settlement := y.settlement } }) hz
  · rw [hsettlement, h.collateral, hbefore]
  · intro _ _
    rw [hsettlement, h.virtualBalances, hbefore]

theorem movedByFills_of_idle (hfills : newFills x x' = []) (hcustody : x'.custody = x.custody) :
    MovedByFills x x' := by
  have hsettlement : x'.settlement = x.settlement := congrArg (fun c => c.vault.settlement) hcustody
  refine ⟨by rw [hcustody, hsettlement]; rfl, by rw [hsettlement], fun user token => ?_⟩
  rw [hfills, hsettlement, map_nil, sum_nil, add_zero]

theorem movedByFills_of_step (hx : x.WellFormed) (h : x.step l = some x') :
    MovedByFills x x' ∨ ∃ op, l = .custody op ∧
      (∀ sender user token delta, op ≠ .call (.updateVirtualBalance sender user token delta)) ∧
      x.custody.step op = some x'.custody ∧ x'.fills = x.fills := by
  cases effect_of_step hx h with
  | swept _ _ _ _ _ _ _ _ F y _ _ _ _ hF =>
    have hnew : newFills x (y.restOrClose x.nextOrderId) = F :=
      newFills_of_append ((quiet_restOrClose y _).fills.trans hF.booked.fills)
    have hbooked := hF.booked
    rw [← hnew] at hbooked
    exact .inl (movedByFills_of_booked hbooked rfl (quiet_restOrClose y _).custody)
  | queued =>
    exact .inl (movedByFills_of_idle (newFills_of_eq (quiet_addToBatch _ _ _ _ _ _ _).fills)
      (quiet_addToBatch _ _ _ _ _ _ _).custody)
  | cancelled | emptied => exact .inl (movedByFills_of_idle (newFills_of_eq rfl) rfl)
  | dealt ctx _ m _ F y _ _ hF =>
    have hfills : ((y.clearBatchState m).stampBatch m ctx.block).fills = x.fills ++ F :=
      hF.booked.fills
    have hbooked := hF.booked
    rw [← newFills_of_append hfills] at hbooked
    exact .inl (movedByFills_of_booked hbooked rfl rfl)
  | custody op _ hop hcustody => exact .inr ⟨op, rfl, hop, hcustody, rfl⟩
  | administered _ _ _ hadmin =>
    exact .inl (movedByFills_of_idle (newFills_of_eq hadmin.fills) hadmin.custody)

/-! ## Sides of a fill -/

/-- The order has been placed on a side of a market by a trader. -/
structure OnSide (x : Exchange) (side : Side) (m : MarketId) (id : Nat) (trader : Address) :
    Prop where
  placed : id < x.nextOrderId
  marketId : (x.orders id).marketId = m
  side : (x.orders id).side = side
  trader : (x.orders id).trader = trader

/-- The fill is between a buy and a sell of its market, for their traders. -/
structure Sided (x : Exchange) (f : Fill) : Prop where
  buy : x.OnSide .buy f.marketId f.buyOrderId f.buyer
  sell : x.OnSide .sell f.marketId f.sellOrderId f.seller

theorem OnSide.step (hid : x.OnSide side m id trader) (hx : x.WellFormed) (h : x.step l = some x') :
    x'.OnSide side m id trader := by
  have hterms := terms_of_step hx h hid.placed
  exact ⟨hid.placed.trans_le (nextOrderId_le_of_step hx h),
    (marketId_of_terms hterms).trans hid.marketId,
    (side_of_terms hterms).trans hid.side,
    (trader_of_terms hterms).trans hid.trader⟩

section

variable (hx : x.WellFormed)

include hx

/-- The two parties of a fill of a sweep. -/
theorem sided_of_taken {ctx : Ctx} {orderType : OrderType} {offsetBps : Sint 16} {size : Uint 128}
    {incomingPrice oracle : Sint 256} (hid : id ∈ x.book side.opposite m)
    (h : Taken x.nextOrderId id incomingPrice oracle
      (x.written ctx trader m side orderType offsetBps size) f) :
    (x.written ctx trader m side orderType offsetBps size).Sided f := by
  have hlt : id < x.nextOrderId := hx.placed id (.inl ⟨_, _, hid⟩)
  have hrests := hx.resting side.opposite m id hid
  have hm : f.marketId = m := by
    rw [h.marketId, written_self]
    rfl
  have hinc : (x.written ctx trader m side orderType offsetBps size).OnSide side f.marketId
      x.nextOrderId trader := by
    refine ⟨Nat.lt_succ_self _, ?_, ?_, ?_⟩ <;> rw [written_self]
    · exact hm.symm
    · rfl
    · rfl
  have hresting : (x.written ctx trader m side orderType offsetBps size).OnSide side.opposite
      f.marketId id (x.orders id).trader := by
    refine ⟨hlt.trans (Nat.lt_succ_self _), ?_, ?_, ?_⟩ <;> rw [written_of_ne hlt.ne]
    · exact hrests.marketId.trans hm.symm
    · exact hrests.side
  have hbetween := h.between
  rw [written_self, written_of_ne hlt.ne] at hbetween
  cases side with
  | buy =>
    obtain ⟨⟨hbuy, hsell⟩, hbuyer, hseller⟩ := hbetween
    refine ⟨?_, ?_⟩
    · rw [hbuy, hbuyer]
      exact hinc
    · rw [hsell, hseller]
      exact hresting
  | sell =>
    obtain ⟨⟨hbuy, hsell⟩, hbuyer, hseller⟩ := hbetween
    refine ⟨?_, ?_⟩
    · rw [hbuy, hbuyer]
      exact hresting
    · rw [hsell, hseller]
      exact hinc

theorem onSide_of_party (h : (id, trader) ∈ (x.queue side m).map Queued.party) :
    x.OnSide side m id trader := by
  obtain ⟨q, hq, hparty⟩ := mem_map.mp h
  obtain ⟨rfl, rfl⟩ := Prod.mk.inj hparty
  have hdesc := hx.queued side m q hq
  exact ⟨hx.placed _ (.inr ⟨side, m, mem_map_of_mem hq⟩), hdesc.marketId, hdesc.side, hdesc.trader⟩

theorem sided_of_step (h : x.step l = some x') : ∀ f ∈ newFills x x', x'.Sided f := by
  intro f hf
  obtain ⟨-, hcases⟩ := newFills_cases hx h
  rcases hcases with
    ⟨ctx, trader, m, side, orderType, offsetBps, size, _, y, _, -, -, hF, rfl⟩ |
    ⟨ctx, _, m, _, y, -, -, hF, -⟩ | ⟨hnone, -⟩
  · obtain ⟨_, hid, htaken⟩ := hF.taken f hf
    have hsided := sided_of_taken hx hid htaken
    have hnext : (y.restOrClose x.nextOrderId).nextOrderId = x.nextOrderId + 1 := by
      rw [(quiet_restOrClose _ _).nextOrderId]
      exact nextOrderId_of_arrays hF.booked.arrays
    have hmove : ∀ {side' i t}, (x.written ctx trader m side orderType offsetBps size).OnSide
        side' f.marketId i t → (y.restOrClose x.nextOrderId).OnSide side' f.marketId i t := by
      intro _ i _ hi
      have hterms := (restOrClose_terms y x.nextOrderId i).trans (hF.terms i)
      exact ⟨hnext ▸ hi.placed, (marketId_of_terms hterms).trans hi.marketId,
        (side_of_terms hterms).trans hi.side,
        (trader_of_terms hterms).trans hi.trader⟩
    exact ⟨hmove hsided.buy, hmove hsided.sell⟩
  · obtain ⟨hm, -⟩ := hF.price f hf
    have hsided : x.Sided f := by
      refine ⟨onSide_of_party hx ?_, onSide_of_party hx ?_⟩
      · rw [hm]
        exact hF.buyers f hf
      · rw [hm]
        exact hF.sellers f hf
    exact ⟨hsided.buy.step hx h, hsided.sell.step hx h⟩
  · rw [hnone] at hf
    cases hf

theorem allSided_of_step (hsided : ∀ f ∈ x.fills, x.Sided f) (h : x.step l = some x') :
    ∀ f ∈ x'.fills, x'.Sided f := by
  intro f hf
  rw [(newFills_cases hx h).1] at hf
  cases mem_append.mp hf with
  | inl hf => exact ⟨(hsided f hf).buy.step hx h, (hsided f hf).sell.step hx h⟩
  | inr hf => exact sided_of_step hx h f hf

end

theorem Reachable.sided (h : Reachable self owner custody x) : ∀ f ∈ x.fills, x.Sided f := by
  have hboth : x.WellFormed ∧ ∀ f ∈ x.fills, x.Sided f := by
    refine h.invariant (I := fun x => x.WellFormed ∧ ∀ f ∈ x.fills, x.Sided f) ?_
      ⟨wellFormed_start self owner custody, fun _ hf => absurd hf not_mem_nil⟩
    rintro _ _ _ ⟨hy, hsided⟩ - hstep
    exact ⟨hy.step hstep, allSided_of_step hy hsided hstep⟩
  exact hboth.2

/-! ## The record over a run -/

/-- What a later state keeps: the fills so far, the terms of the orders, and that an order is
closed. -/
structure Keeps (x x' : Exchange) : Prop where
  placed : x.nextOrderId ≤ x'.nextOrderId
  fills : x.fills <+: x'.fills
  terms : ∀ id < x.nextOrderId, (x'.orders id).terms = (x.orders id).terms
  closed : ∀ id < x.nextOrderId, (x'.orders id).active → (x.orders id).active

theorem Keeps.step (hx : x.Keeps y) (hy : y.WellFormed) (h : y.step l = some z) : x.Keeps z where
  placed := hx.placed.trans (nextOrderId_le_of_step hy h)
  fills := hx.fills.trans ⟨_, (newFills_cases hy h).1.symm⟩
  terms id hid := (terms_of_step hy h (hid.trans_le hx.placed)).trans (hx.terms id hid)
  closed id hid hopen := hx.closed id hid (active_of_step hy h (hid.trans_le hx.placed) hopen)

/-- Nothing that is traded, placed or closed is taken back, whatever steps follow. -/
theorem keeps_of_path (hx : Reachable self owner custody x)
    (h : Path Exchange.step (fun _ _ => True) x x') : x.Keeps x' := by
  have hboth : x'.WellFormed ∧ x.Keeps x' :=
    h.invariant (I := fun y => y.WellFormed ∧ x.Keeps y)
      (fun _ _ _ hI _ hstep => ⟨hI.1.step hstep, hI.2.step hI.1 hstep⟩)
      ⟨hx.wellFormed, le_rfl, prefix_rfl, fun _ _ => rfl, fun _ _ => id⟩
  exact hboth.2

open SpotRun in
/-- Alice takes what Bob has offered. -/
theorem keeps_after_fill :
    ∃ x x' : Exchange, x.Keeps x' ∧ x.nextOrderId = 2 ∧ x'.fills.length = 1 := by
  obtain ⟨x, x', hx, h, hplaced, hfill⟩ :
      ∃ x x', Reachable CustodyRun.engine SpotRun.owner vault x ∧
      Path Exchange.step (fun _ _ => True) x x' ∧ x.nextOrderId = 2 ∧ x'.fills.length = 1 :=
    exists_paths_of_run fresh (opening .continuous 0 ++ [limit bob .sell 0 5])
      [limit alice .buy 0 5]
      (by decide +kernel)
  exact ⟨x, x', keeps_of_path hx h, hplaced, hfill⟩

end Exchange

end HyperPax.PaxSpot
