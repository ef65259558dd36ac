/-
  PaxSpot/Prices.lean --- signs and order of the prices offsets stand for.

  An offset of at least `-10000` bps is a price that is not negative, and a higher offset is a
  price at least as high, as long as the price fits the `int256` it is handed back in.
  From the first follows the sign of fill prices, if every order that can be filled
  at its own offset was admitted with such an offset; from the second that the two
  resting books of a market never cross.
-/
import HyperPax.PaxSpot.Executions

set_option autoImplicit false

namespace HyperPax.PaxSpot

open Lib PaxSpot.Order List

/-- The offset resolves to a price that `int256` holds. -/
def InRange (oraclePrice : Sint 256) (offsetBps : Sint 16) : Prop :=
  Sint.Fits 256 (computeAbsolutePrice oraclePrice.val offsetBps)
deriving Decidable

variable {oracle : Sint 256}

theorem resolveOffset_nonneg {offsetBps : Sint 16} (hprice : 0 ≤ oracle.val)
    (hoffset : -10000 ≤ offsetBps.val) (hrange : InRange oracle offsetBps) :
    0 ≤ (resolveOffset oracle offsetBps).val := by
  rw [resolveOffset_val hrange]
  exact computeAbsolutePrice_nonneg hprice hoffset

theorem resolveOffset_mono {a b : Sint 16} (hprice : 0 ≤ oracle.val) (hab : a.val ≤ b.val)
    (ha : InRange oracle a) (hb : InRange oracle b) :
    (resolveOffset oracle a).val ≤ (resolveOffset oracle b).val := by
  rw [resolveOffset_val ha, resolveOffset_val hb]
  exact computeAbsolutePrice_mono hprice hab

/-! ## The clearing price -/

theorem computeClearing_price (oracle : Sint 256) (buys sells : List Entry) :
    (computeClearing oracle buys sells).price = oracle ∨
      ∃ e ∈ buys ++ sells, (computeClearing oracle buys sells).price =
        resolveOffset oracle e.offsetBps := by
  rw [(computeClearing_eq oracle buys sells).2.2]
  rcases bestLevel_mem buys sells with h | ⟨e, he, h⟩
  · rw [h]
    exact .inl (Sint.ext (resolveOffset_zero oracle))
  · exact .inr ⟨e, he, by rw [h]⟩

/-! ## Fills at a price that is not negative -/

/-- The fill is at a price that is not negative, and adds nothing to the buyer's balance of the
quote token (`Fill.leg` is what a fill adds, `Booked.virtualBalances`). -/
def Fill.Fair (f : Fill) : Prop := 0 ≤ f.price.val ∧ f.leg f.buyer f.quoteToken ≤ 0
deriving Decidable

theorem fair_of_nonneg {f : Fill} (hprice : 0 ≤ f.price.val) (hne : f.baseToken ≠ f.quoteToken)
    (hquote : f.quoteAmount.val = (f.price.val * f.size.val).tdiv priceDecimals) : f.Fair := by
  have hnonneg : 0 ≤ f.quoteAmount.val := by
    rw [hquote]
    exact Int.tdiv_nonneg (mul_nonneg hprice (Int.natCast_nonneg _)) (by decide)
  refine ⟨hprice, ?_⟩
  unfold Fill.leg
  have hbase : ¬ f.quoteToken = f.baseToken := fun h => hne h.symm
  by_cases hself : f.buyer = f.seller
  · simp only [hbase, hself, and_false, if_false, and_self, if_true]
    omega
  · simp only [hbase, hself, and_false, false_and, if_false, and_self, if_true]
    omega

namespace Exchange

/-- A step of a fairly priced run: oracle prices are not negative; an order that can be filled at
its own offset, that is a LIMIT order or any order of a batch, has an offset of at least `-10000`;
the prices a matching or a clearing asks for are in range; base and quote differ. -/
def FairlyPriced (x : Exchange) : Label → Prop
  | .placeOrder ctx _ m side orderType offsetBps _ =>
    (orderType = .limit ∨ (x.marketStates m).mode = .batch → -10000 ≤ offsetBps.val) ∧
    ∀ oraclePrice ∈ ctx.price m, 0 ≤ oraclePrice.val ∧
      ∀ id ∈ x.book side.opposite m, InRange oraclePrice (x.orders id).offsetBps
  | .clearBatch ctx _ m => ∀ oraclePrice ∈ ctx.price m, 0 ≤ oraclePrice.val ∧
      ∀ q ∈ x.batchBuys m ++ x.batchSells m, InRange oraclePrice q.entry.offsetBps
  | .createMarket _ _ baseToken quoteToken .. => baseToken ≠ quoteToken
  | _ => True

instance (x : Exchange) (l : Label) : Decidable (x.FairlyPriced l) :=
  match l with
  | .placeOrder .. => inferInstanceAs (Decidable (_ ∧ _))
  | .clearBatch ctx _ m => inferInstanceAs (Decidable (∀ oraclePrice ∈ ctx.price m, _))
  | .createMarket .. => inferInstanceAs (Decidable (_ ≠ _))
  | .cancelOrder .. | .setMarketMode .. | .setRouter .. | .pause .. | .unpause .. | .custody .. =>
    .isTrue trivial

/-- What a fairly priced run keeps. -/
structure Fair (x : Exchange) : Prop where
  wellFormed : x.WellFormed
  resting : ∀ side m, ∀ id ∈ x.book side m, -10000 ≤ (x.orders id).offsetBps.val
  queued : ∀ side m, ∀ q ∈ x.queue side m, -10000 ≤ q.entry.offsetBps.val
  markets : ∀ m, (x.marketStates m).active →
    (x.marketStates m).baseToken ≠ (x.marketStates m).quoteToken
  fills : ∀ f ∈ x.fills, f.Fair

variable {x x' y : Exchange} {l : Label} {m : MarketId} {F : List Fill}

theorem fair_of_booked {z : Exchange} (hx : x.Fair) (hactive : (x.marketStates m).active)
    (h : BookedAll (x.marketStates m) z F y) (hprice : ∀ f ∈ F, 0 ≤ f.price.val) :
    ∀ f ∈ F, f.Fair := by
  intro f hf
  obtain ⟨hbase, hquote⟩ := h.tokens f hf
  refine fair_of_nonneg (hprice f hf) ?_ (h.amounts f hf).1
  rw [hbase, hquote]
  exact hx.markets m hactive

variable {oracle : Sint 256} {side : Side} {ctx : Ctx} {trader : Address} {offsetBps : Sint 16}
  {size left : Uint 128}

theorem clearing_price_nonneg (hx : x.Fair) (hprice : 0 ≤ oracle.val)
    (hrange : ∀ q ∈ x.batchBuys m ++ x.batchSells m, InRange oracle q.entry.offsetBps) :
    0 ≤ (x.clearing oracle m).price.val := by
  rcases computeClearing_price oracle ((x.batchBuys m).map Queued.entry)
    ((x.batchSells m).map Queued.entry) with h | ⟨_, he, h⟩
  · rw [clearing, h]
    exact hprice
  rw [← map_append] at he
  obtain ⟨q, hq, rfl⟩ := mem_map.mp he
  rw [clearing, h]
  refine resolveOffset_nonneg hprice ?_ (hrange q hq)
  rcases mem_append.mp hq with hq | hq
  · exact hx.queued .buy m q hq
  · exact hx.queued .sell m q hq

theorem Fair.newFills (hx : x.Fair) (hok : x.FairlyPriced l) (h : x.step l = some x') :
    ∀ f ∈ newFills x x', f.Fair := by
  obtain ⟨-, hcases⟩ := newFills_cases hx.wellFormed h
  rcases hcases with
    ⟨_, _, m, _, _, _, _, oracle, _, _, rfl, ⟨hactive, -, hprice⟩, hF, -⟩ |
    ⟨_, _, m, oracle, _, rfl, ⟨hactive, hprice⟩, hF, -⟩ | ⟨hnone, -⟩
  · obtain ⟨hnonneg, hrange⟩ := hok.2 oracle hprice
    refine fair_of_booked hx hactive hF.booked fun f hf => ?_
    obtain ⟨id, hid, htaken⟩ := hF.taken f hf
    have hne : id ≠ x.nextOrderId := by
      rintro rfl
      exact hx.wellFormed.not_listed le_rfl (.inl ⟨_, _, hid⟩)
    rw [htaken.price, written_of_ne hne]
    exact resolveOffset_nonneg hnonneg (hx.resting _ m id hid) (hrange id hid)
  · obtain ⟨hnonneg, hrange⟩ := hok oracle hprice
    refine fair_of_booked hx hactive hF.booked fun f hf => ?_
    rw [(hF.price f hf).2.1]
    exact clearing_price_nonneg hx hnonneg hrange
  · intro _ hf
    rw [hnone] at hf
    cases hf

theorem Fair.step (hx : x.Fair) (hok : x.FairlyPriced l) (h : x.step l = some x') : x'.Fair := by
  have hwf := hx.wellFormed
  refine ⟨hwf.step h, ?_, ?_, ?_, ?_⟩
  · intro side m id hid
    rcases mem_book_of_step hwf h hid with hid | ⟨ctx, _, _, _, rfl, -, hoffset⟩
    · have hplaced := hwf.placed id (.inl ⟨side, m, hid⟩)
      rw [offsetBps_of_terms (terms_of_step hwf h hplaced)]
      exact hx.resting side m id hid
    · rw [hoffset]
      exact hok.1 (.inl rfl)
  · intro side m q hq
    rcases mem_queue_of_step hwf h hq with hq | ⟨_, _, hmode, rfl, -⟩
    · exact hx.queued side m q hq
    · exact hok.1 (.inr hmode)
  · intro m hactive
    rcases markets_of_step hwf h with hsame | hadmin
    · rw [hsame] at hactive ⊢
      exact hx.markets m hactive
    rcases hadmin.created m hactive with hbefore | ⟨_, _, _, _, hl⟩
    · obtain ⟨_, hmode⟩ := hadmin.markets m hbefore
      rw [hmode]
      exact hx.markets m hbefore
    · rw [hl] at hok
      exact hok
  · intro f hf
    rw [(newFills_cases hwf h).1] at hf
    rcases mem_append.mp hf with hf | hf
    · exact hx.fills f hf
    · exact hx.newFills hok h f hf

theorem fair_start (self owner : Address) (custody : VaultRun) :
    (start self owner custody).Fair where
  wellFormed := wellFormed_start self owner custody
  resting := by
    intro side m _ hid
    cases side <;> cases hid
  queued := by
    intro side _ _ hq
    cases side <;> cases hq
  markets := fun _ hactive => nomatch hactive
  fills := fun _ hf => absurd hf not_mem_nil

/-- In a fairly priced run no fill is at a negative price, and none adds to the buyer's balance of
the quote token. -/
theorem fills_fair_of_path {self owner : Address} {custody : VaultRun}
    (h : Path Exchange.step FairlyPriced (start self owner custody) x) : ∀ f ∈ x.fills, f.Fair :=
  (h.invariant (fun _ _ _ hI hok hstep => .step hI hok hstep) (fair_start self owner custody)).fills

open SpotRun in
/-- A market may be created with a maximal offset above 10000.  A sell at `-20000` bps rests at a
price of -100; the buyer that takes it is paid. -/
theorem limit_sell_filled_at_negative_price : ∃ x, Reachable CustodyRun.engine owner vault x ∧
      x.fills.map (fun f => f.price.val) = [-100 * 10 ^ 18] ∧
      (x.settlement.virtualBalances bob quote).val = 500 ∧ ¬ ∀ f ∈ x.fills, f.Fair :=
  exists_path fresh
    [.setRouter owner router, .custody (.call (.setMatchingEngine owner CustodyRun.engine)),
      .createMarket owner 7 base quote .continuous .zero (.wrap 20000) (.truncate 0),
      limit alice .sell (-20000) 5, limit bob .buy 0 5]
    (by decide +kernel)

open SpotRun in
/-- A resting sell is taken at its price, and a batch is cleared. -/
theorem fills_fair_in_both_modes : ∃ x, Path Exchange.step FairlyPriced fresh x ∧
      x.fills.map (fun f => f.price.val) = [101 * 10 ^ 18, 100 * 10 ^ 18] ∧
      ∀ f ∈ x.fills, f.Fair := by
  have hrun : ∃ x, Path Exchange.step FairlyPriced fresh x ∧
      x.fills.map (fun f => f.price.val) = [101 * 10 ^ 18, 100 * 10 ^ 18] :=
    exists_path fresh
      (opening .continuous 10 ++ [limit alice .sell 100 5, limit bob .buy 200 5,
        .setMarketMode owner 7 .batch, limit alice .sell 0 5, limit bob .buy 0 5,
        .clearBatch (call 2 hundred) 10 7])
      (by decide +kernel)
  obtain ⟨x, hpath, hprices⟩ := hrun
  exact ⟨x, hpath, hprices, fills_fair_of_path hpath⟩

/-! ## Uncrossed books -/

/-- Every active resting buy is below every active resting sell of its market. -/
def Uncrossed (x : Exchange) : Prop :=
  ∀ m, ∀ b ∈ x.book .buy m, ∀ s ∈ x.book .sell m,
    (x.orders b).active → (x.orders s).active →
    (x.orders b).offsetBps.val < (x.orders s).offsetBps.val

/-- The step places no LIMIT order for which a price of the matching is out of range; oracle prices
are positive. -/
def PricesInRange (x : Exchange) : Label → Prop
  | .placeOrder ctx _ m side .limit offsetBps _ => ∀ oraclePrice ∈ ctx.price m,
      0 < oraclePrice.val ∧ InRange oraclePrice offsetBps ∧
        ∀ id ∈ x.book side.opposite m, InRange oraclePrice (x.orders id).offsetBps
  | _ => True

instance (x : Exchange) (l : Label) : Decidable (x.PricesInRange l) := by
  unfold PricesInRange
  split <;> infer_instance

theorem Uncrossed.mono (h : x.Uncrossed) (hbook : ∀ side m, x'.book side m ⊆ x.book side m)
    (hterms : ∀ side m, ∀ id ∈ x.book side m, (x'.orders id).terms = (x.orders id).terms)
    (hactive : ∀ side m, ∀ id ∈ x.book side m, (x'.orders id).active →
      (x.orders id).active) : x'.Uncrossed := by
  intro m b hb s hs hbactive hsactive
  have hb' := hbook .buy m hb
  have hs' := hbook .sell m hs
  rw [offsetBps_of_terms (hterms .buy m b hb'), offsetBps_of_terms (hterms .sell m s hs')]
  exact h m b hb' s hs' (hactive .buy m b hb' hbactive) (hactive .sell m s hs' hsactive)

/-- An offset of one side that does not reach an offset of the other. -/
def Behind (side : Side) (offsetBps opposing : Sint 16) : Prop :=
  match side with
  | .buy => offsetBps.val < opposing.val
  | .sell => opposing.val < offsetBps.val

theorem behind_of_not_cross {incoming resting : Sint 16} (hpos : 0 < oracle.val)
    (hinc : InRange oracle incoming) (hresting : InRange oracle resting)
    (h : ¬ PricesCross side (resolveOffset oracle incoming)
      (resolveOffset oracle resting)) : Behind side incoming resting := by
  cases side with
  | buy =>
    by_contra hle
    exact h (resolveOffset_mono hpos.le (not_lt.mp hle) hresting hinc)
  | sell =>
    by_contra hle
    exact h (resolveOffset_mono hpos.le (not_lt.mp hle) hinc hresting)

theorem behind_of_swept {id : Nat} (hx : x.WellFormed)
    (hF : SweptFor ctx x trader m side .limit offsetBps size oracle F y left)
    (hrange : 0 < oracle.val ∧ InRange oracle offsetBps ∧
      ∀ id ∈ x.book side.opposite m, InRange oracle (x.orders id).offsetBps)
    (hopen : (y.orders x.nextOrderId).filledSize.val < (y.orders x.nextOrderId).size.val)
    (hid : id ∈ x.book side.opposite m) (hactive : (y.orders id).active) :
    Behind side offsetBps (x.orders id).offsetBps := by
  obtain ⟨hpos, hinc, hresting⟩ := hrange
  have hleft : left.val ≠ 0 := by
    have hspent := hF.left_eq
    rw [size_of_terms (hF.terms x.nextOrderId)] at hopen
    rw [written_self] at hspent hopen
    change _ < size.val at hopen
    omega
  have hne : id ≠ x.nextOrderId := by
    rintro rfl
    exact hx.not_listed le_rfl (.inl ⟨_, _, hid⟩)
  have hcross := hF.uncrossed.resolve_left hleft id hid hactive
  rw [written_of_ne hne, written_self] at hcross
  exact behind_of_not_cross hpos hinc (hresting id hid) hcross

theorem Uncrossed.place {orderType : OrderType} (hx : x.WellFormed) (h : x.Uncrossed)
    (hF : SweptFor ctx x trader m side orderType offsetBps size oracle F y left)
    (hrange : orderType = .limit → 0 < oracle.val ∧ InRange oracle offsetBps ∧
      ∀ id ∈ x.book side.opposite m, InRange oracle (x.orders id).offsetBps) :
    (y.restOrClose x.nextOrderId).Uncrossed := by
  have harrays := hF.booked.arrays
  have hbook : ∀ side' m', y.book side' m' = x.book side' m' := by
    intro side' m'
    rw [book_of_arrays harrays]
    cases side' <;> rfl
  have hold : ∀ {side' m' id}, id ∈ x.book side' m' →
      ((y.restOrClose x.nextOrderId).orders id).offsetBps = (x.orders id).offsetBps ∧
      ((y.orders id).active → (x.orders id).active) := by
    intro _ m' id hid
    have hne : id ≠ x.nextOrderId := by
      rintro rfl
      exact hx.not_listed le_rfl (.inl ⟨_, _, hid⟩)
    refine ⟨?_, fun hactive => ?_⟩
    · rw [offsetBps_of_terms (restOrClose_terms y _ id),
        offsetBps_of_terms (hF.terms id), written_of_ne hne]
    · have hwritten := hF.active id hactive
      rwa [written_of_ne hne] at hwritten
  have hnew : ((y.restOrClose x.nextOrderId).orders x.nextOrderId).offsetBps = offsetBps := by
    rw [offsetBps_of_terms (restOrClose_terms y _ _), offsetBps_of_terms (hF.terms _), written_self]
    rfl
  have hterms := hF.terms x.nextOrderId
  rw [written_self] at hterms
  -- one of the two may be the order just placed, not both: it has one side
  intro m' b hb s hs hbactive hsactive
  have hbactive := restOrClose_active hbactive
  have hsactive := restOrClose_active hsactive
  rcases mem_book_restOrClose hb with hb | ⟨rfl, hbrests, hbopen⟩
  · rw [hbook] at hb
    obtain ⟨hboffset, hblive⟩ := hold hb
    rcases mem_book_restOrClose hs with hs | ⟨rfl, hsrests, hsopen⟩
    · rw [hbook] at hs
      obtain ⟨hsoffset, hslive⟩ := hold hs
      rw [hboffset, hsoffset]
      exact h m' b hb s hs (hblive hbactive) (hslive hsactive)
    obtain rfl : m = m' := (marketId_of_terms hterms).symm.trans hsrests.marketId
    obtain rfl : side = .sell := (side_of_terms hterms).symm.trans hsrests.side
    obtain rfl : orderType = .limit :=
      (orderType_of_terms hterms).symm.trans hsrests.orderType
    rw [hboffset, hnew]
    exact behind_of_swept hx hF (hrange rfl) hsopen hb hbactive
  · obtain rfl : m = m' := (marketId_of_terms hterms).symm.trans hbrests.marketId
    obtain rfl : side = .buy := (side_of_terms hterms).symm.trans hbrests.side
    obtain rfl : orderType = .limit :=
      (orderType_of_terms hterms).symm.trans hbrests.orderType
    rcases mem_book_restOrClose hs with hs | ⟨-, hsrests, -⟩
    · rw [hbook] at hs
      rw [(hold hs).1, hnew]
      exact behind_of_swept hx hF (hrange rfl) hbopen hs hsactive
    · exact absurd (hbrests.side.symm.trans hsrests.side) (by decide)

theorem Uncrossed.step (hx : x.WellFormed) (h : x.Uncrossed) (hok : x.PricesInRange l)
    (hstep : x.step l = some x') : x'.Uncrossed := by
  cases effect_of_step hx hstep with
  | swept _ _ _ _ _ _ _ oracle _ _ _ _ _ hprice hF =>
    refine .place hx h hF ?_
    rintro rfl
    exact hok oracle hprice
  | queued ctx trader m side orderType offsetBps size =>
    have hsame : ∀ {side' m' id}, id ∈ x.book side' m' →
        (x.written ctx trader m side orderType offsetBps size).orders id = x.orders id := by
      intro side' m' id hid
      refine written_of_ne ?_
      rintro rfl
      exact hx.not_listed le_rfl (.inl ⟨_, _, hid⟩)
    refine h.mono (fun side' m' => ?_) (fun side' m' id hid => ?_) (fun side' m' id hid => ?_)
    · rw [book_addToBatch]
      cases side' <;> exact List.Subset.refl _
    · rw [orders_addToBatch, hsame hid]
    · rw [orders_addToBatch, hsame hid]
      exact fun hactive => hactive
  | cancelled _ orderId =>
    exact h.mono (fun side' m' => List.Subset.refl _)
      (fun _ _ id _ => x.deactivate_terms orderId id)
      (fun _ _ id _ hactive => ((x.deactivate_active orderId id).mp hactive).2)
  | emptied | custody => exact h
  | dealt _ _ _ _ _ y _ _ hF =>
    have hy : y.Uncrossed := by
      refine h.mono (fun side' m' => ?_) (fun _ _ id _ => ?_) (fun _ _ id _ => ?_)
      · rw [book_of_arrays hF.booked.arrays]
        exact List.Subset.refl _
      · rw [hF.orders]
      · rw [hF.orders]
        exact fun hactive => hactive
    exact hy
  | administered _ _ _ hadmin =>
    refine h.mono (fun side' m' => ?_) (fun _ _ id _ => ?_) (fun _ _ id _ => ?_)
    · rw [book_of_arrays hadmin.arrays]
      exact List.Subset.refl _
    · rw [hadmin.orders]
    · rw [hadmin.orders]
      exact fun hactive => hactive

/-- As long as the prices asked for are in range, the books are never crossed: whatever else is
called, and however the oracle moves while orders rest. -/
theorem uncrossed_of_path {self owner : Address} {custody : VaultRun}
    (h : Path Exchange.step PricesInRange (start self owner custody) x) : x.Uncrossed := by
  have hboth : x.WellFormed ∧ x.Uncrossed :=
    h.invariant (I := fun x => x.WellFormed ∧ x.Uncrossed)
      (fun _ _ _ hI hok hstep => ⟨hI.1.step hstep, .step hI.1 hI.2 hok hstep⟩)
      ⟨wellFormed_start self owner custody, fun _ _ hb => absurd hb not_mem_nil⟩
  exact hboth.2

open SpotRun in
/-- A sell rests at offset 0.  The oracle then answers a price close to the largest `int256`; a buy
at offset 1 resolves to a price beyond it, comes back negative, and rests above the sell. -/
theorem wrapped_price_crosses_books : ∃ x, Reachable CustodyRun.engine owner vault x ∧
      x.book .sell 7 = [1] ∧ x.book .buy 7 = [2] ∧ ((x.orders 1).active ∧ (x.orders 2).active) ∧
      ((x.orders 1).offsetBps.val = 0 ∧ (x.orders 2).offsetBps.val = 1) ∧
      ¬ (x.orders 2).offsetBps.val < (x.orders 1).offsetBps.val :=
  exists_path fresh
    (opening .continuous 0 ++ [limit alice .sell 0 5,
      .placeOrder (call 1 ⟨5789604461865809771 * 10 ^ 58, by decide, by decide⟩) bob 7 .buy .limit
        (Sint.wrap 1) (Uint.truncate 5)])
    (by decide +kernel)

open SpotRun in
/-- Two orders rest at 100, and the oracle moves before a third one comes. -/
theorem uncrossed_across_price_move : ∃ x, Path Exchange.step PricesInRange fresh x ∧
      (x.book .buy 7 = [1, 3] ∧ x.book .sell 7 = [2]) ∧ x.Uncrossed := by
  have hrun : ∃ x, Path Exchange.step PricesInRange fresh x ∧
      x.book .buy 7 = [1, 3] ∧ x.book .sell 7 = [2] :=
    exists_path fresh
      (opening .continuous 0 ++ [limit alice .buy (-10) 5, limit bob .sell 10 5,
        .placeOrder (call 2 ⟨3 * 10 ^ 18, by decide, by decide⟩) alice 7 .buy .limit
          (Sint.wrap 9) (Uint.truncate 5)])
      (by decide +kernel)
  obtain ⟨x, hpath, hbooks⟩ := hrun
  exact ⟨x, hpath, hbooks, uncrossed_of_path hpath⟩

end Exchange

end HyperPax.PaxSpot
