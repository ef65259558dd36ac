/-
  PaxSpot/Taking.lean --- who pays the fee of a fill, and what the event calls the orders.

  `_executeFill` calls its parameters `buyOrder` and `sellOrder`, but `_matchAgainstBook` passes
  the incoming order first, whatever its side.  The body swaps the traders of an incoming sell,
  and then charges the fee to the buyer, who is the maker then; and the event is emitted with
  the parameters as they came.
-/
import HyperPax.PaxSpot.Book

set_option autoImplicit false

namespace HyperPax.PaxSpot

open Lib

/-- The event `OrderFilled`. -/
structure OrderFilled where
  buyOrderId : Nat
  sellOrderId : Nat
  marketId : MarketId
  size : Uint 128
  price : Sint 256
  oraclePrice : Sint 256

/-- The event `_executeFill` emits, with its parameters in their order. -/
def Exchange.orderFilled (x : Exchange) (buyOrder sellOrder : Nat) (fillSize : Uint 128)
    (fillPrice oraclePrice : Sint 256) : OrderFilled where
  buyOrderId := (x.orders buyOrder).id
  sellOrderId := (x.orders sellOrder).id
  marketId := (x.orders buyOrder).marketId
  size := fillSize
  price := fillPrice
  oraclePrice := oraclePrice

/-- The event names the BUY order and the SELL order. -/
def OrderFilled.Names (event : OrderFilled) (incoming resting : Order) : Prop :=
  match incoming.side with
  | .buy => event.buyOrderId = incoming.id ∧ event.sellOrderId = resting.id
  | .sell => event.buyOrderId = resting.id ∧ event.sellOrderId = incoming.id

/-- The signed amount that a side receives. -/
def Side.signed (side : Side) (n : Int) : Int :=
  match side with
  | .buy => n
  | .sell => -n

/-- What a fill adds to a virtual balance when the taker pays the fee: the taker, on `side`,
and the maker exchange size and quote amount. -/
def takerLeg (side : Side) (taker maker : Address) (market : MarketState) (size quote fee : Int)
    (user token : Address) : Int :=
  (if user = taker ∧ token = market.baseToken then side.signed size else 0) +
  (if user = taker ∧ token = market.quoteToken then side.signed (-quote) - fee else 0) +
  (if user = maker ∧ token = market.baseToken then side.signed (-size) else 0) +
  (if user = maker ∧ token = market.quoteToken then side.signed quote else 0)

/-- From `x` to `x'` the taker has paid the fee. -/
def TakerPays (x x' : Exchange) (incoming resting : Order) (market : MarketState)
    (size quote fee : Int) : Prop :=
  ∀ user token, (x'.settlement.virtualBalances user token).val =
    (x.settlement.virtualBalances user token).val +
      takerLeg incoming.side incoming.trader resting.trader market size quote fee user token

namespace Exchange

variable {x x' : Exchange} {market : MarketState} {f : Fill} {incoming resting : Order}

theorem takerPays_iff {incomingId restingId : Nat} (hbooked : Booked market x f x')
    (hbetween : f.Between incoming.side incomingId restingId incoming.trader resting.trader) :
    TakerPays x x' incoming resting market f.size.val f.quoteAmount.val f.takerFee.val ↔
      incoming.side = .buy ∨ f.takerFee.val = 0 ∨ incoming.trader = resting.trader := by
  have hlegs : TakerPays x x' incoming resting market f.size.val f.quoteAmount.val f.takerFee.val ↔
      ∀ user token, f.leg user token = takerLeg incoming.side incoming.trader resting.trader market
        f.size.val f.quoteAmount.val f.takerFee.val user token := by
    unfold TakerPays
    simp only [hbooked.virtualBalances, add_right_inj]
  rw [hlegs]
  unfold Fill.leg takerLeg
  rw [hbooked.baseToken, hbooked.quoteToken]
  cases hside : incoming.side with
  | buy =>
    rw [hside] at hbetween
    obtain ⟨-, hbuyer, hseller⟩ := hbetween
    rw [hbuyer, hseller]
    exact iff_of_true (fun _ _ => rfl) (.inl rfl)
  | sell =>
    rw [hside] at hbetween
    obtain ⟨-, hbuyer, hseller⟩ := hbetween
    rw [hbuyer, hseller]
    simp only [Side.signed, reduceCtorEq, false_or, neg_neg]
    constructor
    · intro hall
      by_contra hboth
      push Not at hboth
      have hmaker := hall resting.trader market.quoteToken
      simp only [hboth.2.symm, false_and, if_false, true_and, if_true] at hmaker
      omega
    · rintro (hfee | hsame)
      · intro user token
        rw [hfee]
        split_ifs <;> omega
      · intro _ _
        rw [hsame]
        split_ifs <;> omega

/-- A fill charges its fee to the taker, unless the taker sells and there is a fee and another
trader; and with the event it is as it should be exactly if the taker buys. -/
theorem executeFill_taker_iff (x x' : Exchange) (incomingId restingId : Nat) (fillSize : Uint 128)
    (fillPrice oraclePrice : Sint 256) (market : MarketState)
    (hid : (x.orders incomingId).id ≠ (x.orders restingId).id)
    (h : x.executeFill incomingId restingId fillSize fillPrice oraclePrice market = .ok x') :
    ∃ quote fee : Int, quote = (fillPrice.val * fillSize.val).tdiv priceDecimals ∧
      fee = |quote| * market.takerFeeBps.val / 10000 ∧
      (TakerPays x x' (x.orders incomingId) (x.orders restingId) market fillSize.val quote fee ↔
        (x.orders incomingId).side = .buy ∨ fee = 0 ∨
          (x.orders incomingId).trader = (x.orders restingId).trader) ∧
      ((TakerPays x x' (x.orders incomingId) (x.orders restingId) market fillSize.val quote fee ∧
          (x.orderFilled incomingId restingId fillSize fillPrice oraclePrice).Names
            (x.orders incomingId) (x.orders restingId)) ↔ (x.orders incomingId).side = .buy) := by
  have hne : incomingId ≠ restingId := by
    rintro rfl
    exact hid rfl
  obtain ⟨f, hbooked, ⟨-, hsize, hprice, -⟩, hbetween, -⟩ := executeFill_ok hne h
  have hpays := takerPays_iff hbooked hbetween
  rw [hsize] at hpays
  refine ⟨f.quoteAmount.val, f.takerFee.val, ?_, hbooked.takerFee, ?_, ?_⟩
  · rw [hbooked.quoteAmount, hprice, hsize]
  · rw [hpays, Int.natCast_eq_zero]
  rw [hpays]
  constructor
  · rintro ⟨-, hnames⟩
    cases hside : (x.orders incomingId).side with
    | buy => rfl
    | sell =>
      unfold OrderFilled.Names at hnames
      rw [hside] at hnames
      exact absurd hnames.1 hid
  · intro hside
    refine ⟨.inl hside, ?_⟩
    unfold OrderFilled.Names
    rw [hside]
    exact ⟨rfl, rfl⟩

end Exchange

namespace Taking

open SpotRun

def lot : Uint 128 := .truncate 5000

/-- Alice's order rests at 100 in a market with a fee of ten basis points, and Bob's order on the
given side has been written. -/
def facing (side : Side) : Exchange :=
  ((runLabels Exchange.step fresh (opening .continuous 10 ++
    [limit alice (match side with | .buy => .sell | .sell => .buy) 0 5000])).getD fresh).written
      (call 1 hundred) bob 7 side .limit .zero lot

def filled (side : Side) : Except Revert Exchange :=
  (facing side).executeFill 2 1 lot hundred hundred ((facing side).marketStates 7)

/-- The quote balances of Alice and Bob. -/
def balances (x : Exchange) : Int × Int :=
  ((x.settlement.virtualBalances alice quote).val, (x.settlement.virtualBalances bob quote).val)

end Taking

open Taking SpotRun in
/-- Bob sells into Alice's resting order for 500000: Alice pays the fee of 500, and the event
gives Bob's order as the buy. -/
theorem maker_pays_taker_fee : ∃ x', filled .sell = .ok x' ∧ balances (facing .sell) = (0, 0) ∧
      balances x' = (-500500, 500000) ∧
      ¬ ((facing .sell).orderFilled 2 1 lot hundred hundred).Names ((facing .sell).orders 2)
        ((facing .sell).orders 1) := by
  have hrun : (filled .sell).toOption.map balances = some (-500500, 500000) := by decide +kernel
  cases hfilled : filled .sell with
  | error =>
    rw [hfilled] at hrun
    cases hrun
  | ok x' =>
    rw [hfilled] at hrun
    have hside : ((facing .sell).orders 2).side = .sell := by decide +kernel
    refine ⟨x', rfl, by decide +kernel, Option.some.inj hrun, ?_⟩
    unfold OrderFilled.Names
    rw [hside]
    decide +kernel

open Taking SpotRun in
theorem buying_taker_pays_fee : ∃ x' quote fee, filled .buy = .ok x' ∧
      TakerPays (facing .buy) x' ((facing .buy).orders 2) ((facing .buy).orders 1)
        ((facing .buy).marketStates 7) lot.val quote fee := by
  have hrun : (filled .buy).isOk := by decide +kernel
  cases hfilled : filled .buy with
  | error =>
    rw [hfilled] at hrun
    cases hrun
  | ok x' =>
    obtain ⟨quote, fee, -, -, -, hiff⟩ := Exchange.executeFill_taker_iff (facing .buy) x' 2 1 lot
      hundred hundred ((facing .buy).marketStates 7) (by decide +kernel) hfilled
    exact ⟨x', quote, fee, rfl, (hiff.mpr (by decide +kernel)).1⟩

end HyperPax.PaxSpot
