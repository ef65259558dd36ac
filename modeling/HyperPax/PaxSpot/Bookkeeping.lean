/-
  PaxSpot/Bookkeeping.lean --- filled sizes, fills and balances tell one story.

  As long as no batch is cleared, the filled size of an order is the total of its fills
  (`Tallied`); a batch fills without a trace in the order.  Summed over orders with
  weights of their own, filled sizes are then sums over fills (`sum_traded`), and
  the balances of a run follow.
-/
import HyperPax.PaxSpot.Executions

set_option autoImplicit false

namespace HyperPax.PaxSpot

open Lib List

namespace Exchange

variable {x x' y : Exchange} {l : Label} {incomingId : Nat} {remaining : Uint 128}

/-! ## Filled sizes -/

/-- A run in which no batch is cleared. -/
def NoClearing (_ : Exchange) : Label → Prop
  | .clearBatch .. => False
  | _ => True

instance (x : Exchange) (l : Label) : Decidable (x.NoClearing l) := by
  unfold NoClearing
  split <;> infer_instance

/-- The filled size of an order is the total of its fills, and at most its size. -/
structure Tallied (x : Exchange) : Prop where
  filled : ∀ id, (x.orders id).filledSize.val = traded id x.fills
  bounded : ∀ id, (x.orders id).filledSize.val ≤ (x.orders id).size.val

theorem traded_unplaced (hsided : ∀ f ∈ x.fills, x.Sided f) {id : Nat}
    (hid : x.nextOrderId ≤ id) : traded id x.fills = 0 :=
  traded_of_spared fun f hf =>
    ⟨((hsided f hf).buy.placed.trans_le hid).ne, ((hsided f hf).sell.placed.trans_le hid).ne⟩

theorem Tallied.congr (h : x.Tallied) (hfills : x'.fills = x.fills)
    (hfilled : ∀ id, (x'.orders id).filledSize = (x.orders id).filledSize)
    (hsize : ∀ id, (x'.orders id).size = (x.orders id).size) : x'.Tallied := by
  refine ⟨fun id => ?_, fun id => ?_⟩
  · rw [hfilled, hfills, h.filled]
  · rw [hfilled, hsize]
    exact h.bounded id

theorem Tallied.written (h : x.Tallied) (hsided : ∀ f ∈ x.fills, x.Sided f) {ctx : Ctx}
    {trader : Address} {m : MarketId} {side : Side} {orderType : OrderType} {offsetBps : Sint 16}
    {size : Uint 128} : (x.written ctx trader m side orderType offsetBps size).Tallied := by
  refine ⟨fun id => ?_, fun id => ?_⟩
  · by_cases hid : id = x.nextOrderId
    · subst hid
      rw [written_self]
      exact (traded_unplaced hsided le_rfl).symm
    · rw [written_of_ne hid]
      exact h.filled id
  · by_cases hid : id = x.nextOrderId
    · subst hid
      rw [written_self]
      exact Nat.zero_le _
    · rw [written_of_ne hid]
      exact h.bounded id

theorem Tallied.swept {ids : List Nat} {incomingPrice oracle : Sint 256}
    {market : MarketState} {left : Uint 128} {F : List Fill} (h : x.Tallied)
    (hrem : remaining.val + (x.orders incomingId).filledSize.val = (x.orders incomingId).size.val)
    (hF : Swept incomingId ids incomingPrice oracle market x remaining F y left) :
    y.Tallied ∧ left.val + (y.orders incomingId).filledSize.val =
      (y.orders incomingId).size.val := by
  have hleft : left.val + (y.orders incomingId).filledSize.val =
      (y.orders incomingId).size.val := by
    rw [hF.left_eq, hrem, Order.size_of_terms (hF.terms incomingId)]
  refine ⟨⟨fun id => ?_, fun id => ?_⟩, hleft⟩
  · rw [hF.filledSize, hF.booked.fills, traded_append, h.filled]
  by_cases hid : id = incomingId
  · subst hid
    omega
  · exact hF.bounded id hid (h.bounded id)

theorem Tallied.step (hx : x.WellFormed) (hsided : ∀ f ∈ x.fills, x.Sided f) (h : x.Tallied)
    (hok : x.NoClearing l) (hstep : x.step l = some x') : x'.Tallied := by
  cases effect_of_step hx hstep with
  | swept _ _ _ _ _ _ _ _ _ y _ _ _ _ hF =>
    have hy := (Tallied.swept (h.written hsided) (by rw [written_self]; rfl) hF).1
    exact hy.congr (quiet_restOrClose y _).fills (restOrClose_filledSize y _)
      fun id => Order.size_of_terms (restOrClose_terms y _ id)
  | queued =>
    exact .congr (h.written hsided) (quiet_addToBatch _ _ _ _ _ _ _).fills
      (fun id => by rw [orders_addToBatch]) (fun id => by rw [orders_addToBatch])
  | cancelled _ orderId =>
    exact h.congr rfl (x.deactivate_filledSize orderId)
      fun id => Order.size_of_terms (x.deactivate_terms orderId id)
  | emptied | dealt => exact hok.elim
  | custody => exact h.congr rfl (fun _ => rfl) fun _ => rfl
  | administered _ _ _ hadmin =>
    exact h.congr hadmin.fills (fun id => by rw [hadmin.orders])
      fun id => by rw [hadmin.orders]

theorem tallied_of_path {self owner : Address} {custody : VaultRun}
    (h : Path Exchange.step NoClearing (start self owner custody) x) : x.Tallied := by
  have hall : (x.WellFormed ∧ ∀ f ∈ x.fills, x.Sided f) ∧ x.Tallied := by
    refine h.invariant (I := fun x => (x.WellFormed ∧ ∀ f ∈ x.fills, x.Sided f) ∧ x.Tallied) ?_
      ⟨⟨wellFormed_start self owner custody, fun _ hf => absurd hf not_mem_nil⟩,
        fun _ => rfl, fun _ => Nat.zero_le _⟩
    rintro _ _ _ ⟨⟨hy, hsided⟩, htallied⟩ hok hstep
    exact ⟨⟨hy.step hstep, allSided_of_step hy hsided hstep⟩,
      Tallied.step hy hsided htallied hok hstep⟩
  exact hall.2

/-! ## Arithmetic of the loop -/

/-- All `uint128` operations of an iteration at an entry succeed: what is left of the entry, the
two filled sizes after the fill, and what is left of the incoming order. -/
def NoOverflow (y : Exchange) (incomingId restingId : Nat) (remaining : Uint 128) : Prop :=
  ∃ available, (y.orders restingId).size.sub? (y.orders restingId).filledSize = some available ∧
    (∃ n, (y.orders incomingId).filledSize.add? (minUint remaining available) = some n) ∧
    (∃ n, (y.orders restingId).filledSize.add? (minUint remaining available) = some n) ∧
    ∃ left, remaining.sub? (minUint remaining available) = some left

theorem Tallied.noOverflow (h : y.Tallied) {restingId : Nat}
    (hleft : remaining.val + (y.orders incomingId).filledSize.val =
      (y.orders incomingId).size.val) : NoOverflow y incomingId restingId remaining := by
  have hbounded := h.bounded restingId
  have hresting := (y.orders restingId).size.lt_two_pow
  have hinc := (y.orders incomingId).size.lt_two_pow
  have havail : (y.orders restingId).size.val - (y.orders restingId).filledSize.val <
      2 ^ 128 := by omega
  refine ⟨⟨_, havail⟩, Uint.sub?_eq_some.mpr (Nat.sub_add_cancel hbounded), ?_, ?_, ?_⟩
  · refine ⟨_, Uint.check_of_lt ?_⟩
    rw [minUint_val]
    omega
  · refine ⟨_, Uint.check_of_lt ?_⟩
    rw [minUint_val]
    dsimp only
    omega
  refine ⟨⟨remaining.val - (minUint remaining ⟨_, havail⟩).val,
    lt_of_le_of_lt (Nat.sub_le _ _) remaining.lt_two_pow⟩, ?_⟩
  rw [Uint.sub?_eq_some]
  refine Nat.sub_add_cancel ?_
  rw [minUint_val]
  exact min_le_left _ _

/-! ## Sums over orders -/

theorem sum_traded (w : Nat → Int) (n : Nat) (F : List Fill)
    (h : ∀ f ∈ F, f.buyOrderId < n ∧ f.sellOrderId < n ∧ f.buyOrderId ≠ f.sellOrderId) :
    ∑ id ∈ .range n, w id * traded id F =
      (F.map fun f => (w f.buyOrderId + w f.sellOrderId) * f.size.val).sum := by
  induction F with
  | nil => simp
  | cons f F ih =>
    obtain ⟨hbuy, hsell, hne⟩ := h f mem_cons_self
    have hpoint : ∀ id, w id * (traded id (f :: F) : Int) =
        (if id = f.buyOrderId then w id * f.size.val else 0) +
        (if id = f.sellOrderId then w id * f.size.val else 0) + w id * traded id F := by
      intro id
      have hcons : traded id (f :: F) = traded id [f] + traded id F := traded_append id [f] F
      rw [hcons, traded_singleton]
      by_cases hb : f.buyOrderId = id
      · subst hb
        simp only [true_or, if_true, hne, if_false, add_zero]
        push_cast
        ring
      by_cases hs : f.sellOrderId = id
      · subst hs
        simp only [or_true, if_true, hne.symm, if_false, zero_add]
        push_cast
        ring
      · simp only [hb, hs, or_self, if_false, Ne.symm hb, Ne.symm hs, zero_add]
    rw [Finset.sum_congr rfl fun id _ => hpoint id, Finset.sum_add_distrib, Finset.sum_add_distrib,
      Finset.sum_ite_eq', Finset.sum_ite_eq', if_pos (Finset.mem_range.mpr hbuy),
      if_pos (Finset.mem_range.mpr hsell), ih fun g hg => h g (mem_cons_of_mem _ hg),
      map_cons, sum_cons]
    ring

/-- The filled sizes of the orders on one side of a market. -/
def filledIn (x : Exchange) (side : Side) (m : MarketId) : Nat :=
  ∑ id ∈ .range x.nextOrderId,
    if (x.orders id).side = side ∧ (x.orders id).marketId = m then
      (x.orders id).filledSize.val
    else 0

end Exchange

/-- A buy counts for its trader, a sell against. -/
def Side.sign : Side → Int
  | .buy => 1
  | .sell => -1

/-- The part of a fill that moves the base token. -/
def Fill.baseLeg (f : Fill) (user token : Address) : Int :=
  (if user = f.buyer ∧ token = f.baseToken then (f.size.val : Int) else 0) +
  (if user = f.seller ∧ token = f.baseToken then -(f.size.val : Int) else 0)

/-- The part of a fill that moves the quote token. -/
def Fill.quoteLeg (f : Fill) (user token : Address) : Int :=
  (if user = f.buyer ∧ token = f.quoteToken then -f.quoteAmount.val - f.takerFee.val else 0) +
  (if user = f.seller ∧ token = f.quoteToken then f.quoteAmount.val else 0)

theorem Fill.leg_eq (f : Fill) (user token : Address) :
    f.leg user token = f.baseLeg user token + f.quoteLeg user token := by
  unfold leg baseLeg quoteLeg
  ring

theorem sum_leg (F : List Fill) (user token : Address) : (F.map fun f => f.leg user token).sum =
      (F.map fun f => f.baseLeg user token).sum + (F.map fun f => f.quoteLeg user token).sum := by
  simp only [Fill.leg_eq, sum_map_add]

namespace Exchange

variable {x x' : Exchange} {l : Label}

/-- The filled buys of a trader less the filled sells, in all markets with a base token. -/
def netFilled (x : Exchange) (trader baseToken : Address) : Int :=
  ∑ id ∈ .range x.nextOrderId,
    (if (x.orders id).trader = trader ∧
        (x.marketStates (x.orders id).marketId).baseToken = baseToken then
      (x.orders id).side.sign
    else 0) * (x.orders id).filledSize.val

theorem Sided.ids {f : Fill} (h : x.Sided f) :
    f.buyOrderId < x.nextOrderId ∧ f.sellOrderId < x.nextOrderId ∧
      f.buyOrderId ≠ f.sellOrderId := by
  refine ⟨h.buy.placed, h.sell.placed, fun heq => ?_⟩
  have hside := h.buy.side
  rw [heq, h.sell.side] at hside
  cases hside

theorem filledIn_eq (hsided : ∀ f ∈ x.fills, x.Sided f) (h : x.Tallied) (m : MarketId) :
    x.filledIn .buy m = x.filledIn .sell m := by
  -- weigh the buys of the market with 1, its sells with -1: every fill adds nothing
  have hsum := sum_traded
    (fun id => if (x.orders id).marketId = m then (x.orders id).side.sign else 0)
    x.nextOrderId x.fills fun f hf => (hsided f hf).ids
  have hzero : (x.fills.map fun f =>
      ((if (x.orders f.buyOrderId).marketId = m then (x.orders f.buyOrderId).side.sign else 0) +
        if (x.orders f.sellOrderId).marketId = m then (x.orders f.sellOrderId).side.sign
        else 0) * (f.size.val : Int)).sum = 0 := by
    refine sum_eq_zero fun n hn => ?_
    obtain ⟨f, hf, rfl⟩ := mem_map.mp hn
    have hf' := hsided f hf
    rw [hf'.buy.marketId, hf'.sell.marketId, hf'.buy.side, hf'.sell.side]
    split <;> simp [Side.sign]
  have hdiff : (x.filledIn .buy m : Int) - x.filledIn .sell m =
      ∑ id ∈ .range x.nextOrderId,
        (if (x.orders id).marketId = m then (x.orders id).side.sign else 0) *
          traded id x.fills := by
    unfold filledIn
    push_cast
    rw [← Finset.sum_sub_distrib]
    refine Finset.sum_congr rfl fun id _ => ?_
    rw [← h.filled id]
    by_cases hm : (x.orders id).marketId = m
    · cases hside : (x.orders id).side <;> simp [hm, Side.sign]
    · simp [hm]
  rw [hsum, hzero] at hdiff
  omega

theorem netFilled_eq (hsided : ∀ f ∈ x.fills, x.Sided f) (hbilled : ∀ f ∈ x.fills, x.BilledBy f)
    (h : x.Tallied) (trader token : Address) :
    x.netFilled trader token = (x.fills.map fun f => f.baseLeg trader token).sum := by
  unfold netFilled
  rw [Finset.sum_congr rfl fun id _ => by rw [h.filled id],
    sum_traded _ _ _ fun f hf => (hsided f hf).ids]
  refine congrArg List.sum (map_congr_left fun f hf => ?_)
  have hf' := hsided f hf
  rw [hf'.buy.marketId, hf'.sell.marketId, hf'.buy.side, hf'.sell.side, hf'.buy.trader,
    hf'.sell.trader, ← (hbilled f hf).baseToken]
  unfold Fill.baseLeg
  simp only [eq_comm (a := trader), eq_comm (a := token), Side.sign]
  split <;> split <;> ring

/-! ## Runs of trading -/

/-- Placing and cancelling orders, and nothing else. -/
def Trading (_ : Exchange) : Label → Prop
  | .placeOrder .. | .cancelOrder .. => True
  | _ => False

instance (x : Exchange) (l : Label) : Decidable (x.Trading l) := by
  unfold Trading
  split <;> infer_instance

theorem balances_of_trading (hx : x.WellFormed) (h : Path Exchange.step Trading x x') :
    x'.fills = x.fills ++ newFills x x' ∧ ∀ user token,
      (x'.settlement.virtualBalances user token).val =
        (x.settlement.virtualBalances user token).val +
          ((newFills x x').map fun f => f.leg user token).sum := by
  suffices hinv : x'.WellFormed ∧ ∃ F, x'.fills = x.fills ++ F ∧ ∀ user token,
      (x'.settlement.virtualBalances user token).val =
        (x.settlement.virtualBalances user token).val + (F.map fun f => f.leg user token).sum by
    obtain ⟨-, F, hfills, hbals⟩ := hinv
    rw [newFills_of_append hfills]
    exact ⟨hfills, hbals⟩
  refine h.invariant (I := fun y => y.WellFormed ∧ ∃ F, y.fills = x.fills ++ F ∧ ∀ user token,
      (y.settlement.virtualBalances user token).val =
        (x.settlement.virtualBalances user token).val + (F.map fun f => f.leg user token).sum) ?_
    ⟨hx, [], by simp, by simp⟩
  rintro y _ z ⟨hy, F, hfills, hbals⟩ hok hstep
  refine ⟨hy.step hstep, F ++ newFills y z, ?_, ?_⟩
  · rw [(newFills_cases hy hstep).1, hfills, append_assoc]
  intro _ _
  rcases movedByFills_of_step hy hstep with hmoved | ⟨_, rfl, -⟩
  · rw [hmoved.virtualBalances, hbals, map_append, sum_append]
    ring
  · exact hok.elim

/-- In every run without a clearing: no order is filled beyond its size, the `uint128` arithmetic
of the matching loop never fails, and the buys of a market are filled as far as its sells.  While
orders are placed and cancelled, a trader's balance of a token moves by the filled buys less the
filled sells in the markets with that base token, and by the quote amounts of the fills in markets
with that quote token. -/
theorem bookkeeping_of_path {self owner : Address} {custody : VaultRun}
    (h : Path Exchange.step NoClearing (start self owner custody) x) :
    (∀ id, (x.orders id).filledSize.val ≤ (x.orders id).size.val) ∧
    (∀ (ctx : Ctx) trader m side orderType offsetBps size oraclePrice done id rest y remaining,
      x.opposingIds side m = done ++ id :: rest → done.foldlM (visit x.nextOrderId
        (incomingAbsPrice (newOrder ctx x.nextOrderId trader m side orderType offsetBps size)
          oraclePrice) oraclePrice (x.marketStates m))
        (x.written ctx trader m side orderType offsetBps size, size) = .ok (y, remaining) →
      NoOverflow y x.nextOrderId id remaining) ∧ (∀ m, x.filledIn .buy m = x.filledIn .sell m) ∧
    ∀ x', Path Exchange.step Trading x x' → ∀ trader token,
      (x'.settlement.virtualBalances trader token).val -
          (x.settlement.virtualBalances trader token).val =
        x'.netFilled trader token - x.netFilled trader token +
          ((newFills x x').map fun f => f.quoteLeg trader token).sum := by
  have hreach : Reachable self owner custody x := h.mono fun _ _ _ => trivial
  have hx := hreach.wellFormed
  have htallied := tallied_of_path h
  refine ⟨htallied.bounded, ?_, filledIn_eq hreach.sided htallied, ?_⟩
  · intro _ trader m side _ _ _ _ done _ _ _ _ hids hwalk
    rw [opposingIds_eq] at hids
    have hnew : x.nextOrderId ∉ done := by
      intro hdone
      refine hx.not_listed le_rfl (.inl ⟨side.opposite, m, ?_⟩)
      rw [hids]
      exact mem_append_left _ hdone
    obtain ⟨_, hF⟩ := walk_swept hwalk hnew
    obtain ⟨hy, hleft⟩ := Tallied.swept (htallied.written hreach.sided)
      (by rw [written_self]; rfl) hF
    exact hy.noOverflow hleft
  · intro x' hpath _ _
    have hpath' : Path Exchange.step NoClearing x x' := by
      refine hpath.mono fun t l hl => ?_
      cases l <;> first | exact trivial | exact hl.elim
    have hreach' : Reachable self owner custody x' :=
      (h.trans hpath').mono fun _ _ _ => trivial
    have htallied' := tallied_of_path (h.trans hpath')
    obtain ⟨hfills, hbals⟩ := balances_of_trading hx hpath
    rw [netFilled_eq hreach'.sided hreach'.billedBy htallied',
      netFilled_eq hreach.sided hreach.billedBy htallied, hbals, sum_leg, hfills,
      map_append, sum_append]
    ring

open SpotRun in
/-- The quote token of market 7 is the base token of market 8.  Alice sells in the first: her
balance of it moves by 500, and she has no order in the second. -/
theorem quote_leg_moves_base_token :
    ∃ x x', Path Exchange.step NoClearing fresh x ∧ Path Exchange.step Trading x x' ∧
      ((x'.marketStates 7).quoteToken = quote ∧ (x'.marketStates 7).baseToken ≠ quote) ∧
      ((x'.marketStates 8).baseToken = quote ∧ (x'.marketStates 8).quoteToken ≠ quote) ∧
      (x'.settlement.virtualBalances alice quote).val -
        (x.settlement.virtualBalances alice quote).val = 500 ∧
      x'.netFilled alice quote - x.netFilled alice quote = 0 :=
  exists_paths_of_run fresh
    (opening .continuous 0 ++ [.createMarket owner 8 quote (Address.ofNat 22) .continuous Uint.zero
      (Sint.wrap 500) Uint.zero])
    [limit alice .sell 0 5, limit bob .buy 0 5] (by decide +kernel)

open SpotRun in
/-- A sell of 5 is filled with 3 by one buy and with 2 of another, which then rests. -/
theorem bookkeeping_partial_fills :
    ∃ x x', Path Exchange.step NoClearing fresh x ∧ Path Exchange.step Trading x x' ∧
      ((x'.orders 1).filledSize.val = 5 ∧ (x'.orders 2).filledSize.val = 3 ∧
        (x'.orders 3).filledSize.val = 2) ∧ (x'.settlement.virtualBalances alice base).val -
          (x.settlement.virtualBalances alice base).val =
        x'.netFilled alice base - x.netFilled alice base +
          ((newFills x x').map fun f => f.quoteLeg alice base).sum := by
  have hrun : ∃ x x', Path Exchange.step NoClearing fresh x ∧ Path Exchange.step Trading x x' ∧
      ((x'.orders 1).filledSize.val = 5 ∧ (x'.orders 2).filledSize.val = 3 ∧
        (x'.orders 3).filledSize.val = 2) :=
    exists_paths_of_run fresh (opening .continuous 0)
      [limit alice .sell 0 5, limit bob .buy 0 3, limit bob .buy 0 4] (by decide +kernel)
  obtain ⟨x, x', hpath, htrading, hfilled⟩ := hrun
  exact ⟨x, x', hpath, htrading, hfilled, (bookkeeping_of_path hpath).2.2.2 x' htrading alice base⟩

end Exchange

end HyperPax.PaxSpot
