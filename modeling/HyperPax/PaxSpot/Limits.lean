/-
  PaxSpot/Limits.lean --- whose orders a step fills, and at which price.

  A sweep asks every entry for its offset and for its `active` flag.  A batch asks for
  neither: the matched volume goes to the front of both queues, at one price.  So limits
  and cancellations hold exactly where the entries at the front happen to accept the
  clearing price, and happen not to be cancelled.
-/
import HyperPax.PaxSpot.Executions

set_option autoImplicit false

namespace HyperPax.PaxSpot

open Lib List

/-! ## Limits -/

/-- The fill is within the limits of its two orders. -/
def Fill.WithinLimits (x : Exchange) (f : Fill) : Prop :=
  ((x.orders f.buyOrderId).orderType = .limit →
    f.price.val ≤ (resolveOffset f.oraclePrice (x.orders f.buyOrderId).offsetBps).val) ∧
  ((x.orders f.sellOrderId).orderType = .limit →
    (resolveOffset f.oraclePrice (x.orders f.sellOrderId).offsetBps).val ≤ f.price.val)
deriving Decidable

/-- The LIMIT entries that a clearing reaches accept the clearing price. -/
def Exchange.FrontAccepts (x : Exchange) (m : MarketId) (oraclePrice : Sint 256) : Prop :=
  (∀ q ∈ reached (x.clearing oraclePrice m).matchedVolume.val (x.batchBuys m),
    (x.orders q.orderId).orderType = .limit →
      (x.clearing oraclePrice m).price.val ≤
        (resolveOffset oraclePrice q.entry.offsetBps).val) ∧
  ∀ q ∈ reached (x.clearing oraclePrice m).matchedVolume.val (x.batchSells m),
    (x.orders q.orderId).orderType = .limit →
      (resolveOffset oraclePrice q.entry.offsetBps).val ≤
        (x.clearing oraclePrice m).price.val

instance (x : Exchange) (m : MarketId) (oraclePrice : Sint 256) :
    Decidable (x.FrontAccepts m oraclePrice) :=
  inferInstanceAs (Decidable (_ ∧ _))

/-- Where the limits of all orders are respected: everywhere but in a clearing whose volume
reaches an entry that does not accept the price. -/
def Exchange.LimitsHold (x : Exchange) : Label → Prop
  | .clearBatch ctx _ m => ∀ oraclePrice ∈ ctx.price m, x.FrontAccepts m oraclePrice
  | _ => True

instance (x : Exchange) (ctx : Ctx) (gas : Nat) (m : MarketId) :
    Decidable (x.LimitsHold (.clearBatch ctx gas m)) :=
  inferInstanceAs (Decidable (∀ oraclePrice ∈ ctx.price m, x.FrontAccepts m oraclePrice))

namespace Exchange

variable {x x' y : Exchange} {l : Label} {oracle : Sint 256} {f : Fill} {m : MarketId}
  {F : List Fill}

theorem withinLimits_of_taken {incomingId restingId : Nat}
    (h : Taken incomingId restingId (incomingAbsPrice (x.orders incomingId) oracle) oracle
      x f) : f.WithinLimits x := by
  have hcrosses := h.crosses
  have hbetween := h.between
  cases hside : (x.orders incomingId).side with
  | buy =>
    rw [hside] at hcrosses hbetween
    obtain ⟨⟨hbuy, hsell⟩, -⟩ := hbetween
    refine ⟨fun hlimit => ?_, fun _ => ?_⟩
    · rw [hbuy] at hlimit ⊢
      rw [incomingAbsPrice, hlimit] at hcrosses
      rw [h.oraclePrice]
      exact hcrosses
    · rw [hsell, h.oraclePrice, h.price]
  | sell =>
    rw [hside] at hcrosses hbetween
    obtain ⟨⟨hbuy, hsell⟩, -⟩ := hbetween
    refine ⟨fun _ => ?_, fun hlimit => ?_⟩
    · rw [hbuy, h.oraclePrice, h.price]
    rw [hsell] at hlimit ⊢
    rw [incomingAbsPrice, hlimit] at hcrosses
    rw [h.oraclePrice]
    exact hcrosses

theorem withinLimits_congr (hbuy : (x'.orders f.buyOrderId).terms = (x.orders f.buyOrderId).terms)
    (hsell : (x'.orders f.sellOrderId).terms = (x.orders f.sellOrderId).terms) :
    f.WithinLimits x' ↔ f.WithinLimits x := by
  unfold Fill.WithinLimits
  rw [Order.orderType_of_terms hbuy, Order.offsetBps_of_terms hbuy,
    Order.orderType_of_terms hsell, Order.offsetBps_of_terms hsell]

theorem withinLimits_of_dealt (hx : x.WellFormed)
    (h : Dealt m (x.clearing oracle m).price oracle (x.marketStates m)
      (x.clearing oracle m).matchedVolume.val (x.batchBuys m) (x.batchSells m) x F y) :
    (∀ f ∈ F, f.WithinLimits x) ↔ x.FrontAccepts m oracle := by
  refine (forall₂_congr fun f hf => ?_).trans ((h.forall_orders
    (fun id => (x.orders id).orderType = .limit → (x.clearing oracle m).price.val ≤
      (resolveOffset oracle (x.orders id).offsetBps).val)
    (fun id => (x.orders id).orderType = .limit →
      (resolveOffset oracle (x.orders id).offsetBps).val ≤
        (x.clearing oracle m).price.val)).trans
    (and_congr (forall₂_congr fun q hq => ?_) (forall₂_congr fun q hq => ?_)))
  · obtain ⟨-, hprice, horacle⟩ := h.price f hf
    rw [Fill.WithinLimits, hprice, horacle]
  · rw [(hx.queued .buy m q (reached_subset _ _ hq)).offsetBps]
  · rw [(hx.queued .sell m q (reached_subset _ _ hq)).offsetBps]

theorem frontAccepts_of_empty (h : x.batchBuys m = [] ∨ x.batchSells m = [])
    (oracle : Sint 256) : x.FrontAccepts m oracle := by
  unfold FrontAccepts
  rw [clearing_of_empty h, reached_zero, reached_zero]
  exact ⟨fun q hq => absurd hq not_mem_nil, fun q hq => absurd hq not_mem_nil⟩

theorem withinLimits_iff (hwf : x.WellFormed) (h : x.step l = some x') :
    (∀ f ∈ newFills x x', f.WithinLimits x') ↔ x.LimitsHold l := by
  obtain ⟨-, hcases⟩ := newFills_cases hwf h
  rcases hcases with
    ⟨ctx, trader, m, side, orderType, offsetBps, size, oracle, _, _, rfl, -, hF, hx'⟩ |
    ⟨ctx, gas, m, oracle, _, rfl, ⟨-, hprice⟩, hF, horders, -⟩ | ⟨hnone, hempty⟩
  · refine iff_of_true (fun f hf => ?_) trivial
    obtain ⟨_, -, htaken⟩ := hF.taken f hf
    have hterms : ∀ i, (x'.orders i).terms =
        ((x.written ctx trader m side orderType offsetBps size).orders i).terms := by
      intro i
      rw [hx', restOrClose_terms]
      exact hF.terms i
    rw [withinLimits_congr (hterms _) (hterms _)]
    rw [← written_self] at htaken
    exact withinLimits_of_taken htaken
  · have hhold : x.LimitsHold (.clearBatch ctx gas m) ↔ x.FrontAccepts m oracle := by
      unfold LimitsHold
      simp only [hprice, Option.mem_def, Option.some.injEq, forall_eq']
    have hterms : ∀ i, (x'.orders i).terms = (x.orders i).terms := by
      intro _
      rw [horders]
    rw [hhold, ← withinLimits_of_dealt hwf hF]
    simp only [fun f : Fill => withinLimits_congr (f := f) (hterms _) (hterms _)]
  · refine iff_of_true (fun f hf => ?_) ?_
    · rw [hnone] at hf
      cases hf
    cases l with
    | clearBatch ctx gas m =>
      intro oracle _
      exact frontAccepts_of_empty (hempty ctx gas m rfl) oracle
    | _ => trivial

/-- From any state reached: a step keeps its fills within the limits of their orders exactly when it
is no clearing whose volume reaches a LIMIT entry that does not accept the clearing price; and in a
run of such steps every fill is within its limits. -/
theorem limits_respected_iff {self owner : Address} {custody : VaultRun}
    (hx : Reachable self owner custody x) : (∀ l x', x.step l = some x' →
      ((∀ f ∈ newFills x x', f.WithinLimits x') ↔ x.LimitsHold l)) ∧
    (Path Exchange.step LimitsHold (start self owner custody) x →
      ∀ f ∈ x.fills, f.WithinLimits x) := by
  refine ⟨fun l x' h => withinLimits_iff hx.wellFormed h, fun hpath => ?_⟩
  have hinv : Reachable self owner custody x ∧ ∀ f ∈ x.fills, f.WithinLimits x := by
    refine hpath.invariant (I := fun x => Reachable self owner custody x ∧
      ∀ f ∈ x.fills, f.WithinLimits x) ?_ ⟨.refl, fun _ hf => absurd hf not_mem_nil⟩
    rintro _ l _ ⟨hy, hlimits⟩ hok hstep
    refine ⟨.tail l hy trivial hstep, fun f hf => ?_⟩
    rw [(newFills_cases hy.wellFormed hstep).1] at hf
    rcases mem_append.mp hf with hf | hf
    · -- the terms of its two orders are what they were
      have hbuy := terms_of_step hy.wellFormed hstep (hy.sided f hf).buy.placed
      have hsell := terms_of_step hy.wellFormed hstep (hy.sided f hf).sell.placed
      rw [withinLimits_congr hbuy hsell]
      exact hlimits f hf
    · exact (withinLimits_iff hy.wellFormed hstep).mpr hok f hf
  exact hinv.2

open SpotRun in
/-- Two buys wait, at the oracle price and 1% above it; a sell 0.5% above crosses only the second.
The batch goes to the first, at 100.5. -/
theorem batch_overcharges_first_buy : ∃ x x', Reachable CustodyRun.engine owner vault x ∧
      x.step (.clearBatch (call 2 hundred) 10 7) = some x' ∧
      (newFills x x').map (fun f => (f.buyOrderId, f.price.val)) = [(1, 1005 * 10 ^ 17)] ∧
      (resolveOffset hundred (x'.orders 1).offsetBps).val = 100 * 10 ^ 18 ∧
      ¬ ∀ f ∈ newFills x x', f.WithinLimits x' :=
  exists_step_of_run fresh
    (opening .batch 0 ++ [limit alice .buy 0 5, limit alice .buy 100 5, limit bob .sell 50 5])
    (by decide +kernel)

open SpotRun in
/-- The same queue in the order of price. -/
theorem sorted_batch_within_limits : ∃ x x', Reachable CustodyRun.engine owner vault x ∧
      x.step (.clearBatch (call 2 hundred) 10 7) = some x' ∧
      (newFills x x').map (fun f => (f.buyOrderId, f.price.val)) = [(1, 1005 * 10 ^ 17)] ∧
      ∀ f ∈ newFills x x', f.WithinLimits x' := by
  have hrun : ∃ x x', Reachable CustodyRun.engine owner vault x ∧
      x.step (.clearBatch (call 2 hundred) 10 7) = some x' ∧
      (newFills x x').map (fun f => (f.buyOrderId, f.price.val)) = [(1, 1005 * 10 ^ 17)] ∧
      x.LimitsHold (.clearBatch (call 2 hundred) 10 7) :=
    exists_step_of_run fresh
      (opening .batch 0 ++ [limit alice .buy 100 5, limit alice .buy 0 5, limit bob .sell 50 5])
      (by decide +kernel)
  obtain ⟨x, x', hx, hstep, hfills, hhold⟩ := hrun
  exact ⟨x, x', hx, hstep, hfills, ((limits_respected_iff hx).1 _ x' hstep).mpr hhold⟩

/-! ## Cancellations -/

/-- No entry that a clearing reaches is of a cancelled order. -/
def FrontLive (x : Exchange) (m : MarketId) (oraclePrice : Sint 256) : Prop :=
  (∀ q ∈ reached (x.clearing oraclePrice m).matchedVolume.val (x.batchBuys m),
    q.orderId ∉ x.cancelled) ∧
  ∀ q ∈ reached (x.clearing oraclePrice m).matchedVolume.val (x.batchSells m),
    q.orderId ∉ x.cancelled

/-- Where cancellations are respected: everywhere but in a clearing whose volume reaches an entry
of a cancelled order. -/
def CancellationsHold (x : Exchange) : Label → Prop
  | .clearBatch ctx _ m => ∀ oraclePrice ∈ ctx.price m, x.FrontLive m oraclePrice
  | _ => True

/-- Cancelled orders have been written, and are not active. -/
def CancelledClosed (x : Exchange) : Prop :=
  ∀ id ∈ x.cancelled, id < x.nextOrderId ∧ (x.orders id).active = false

theorem CancelledClosed.mono (h : x.CancelledClosed) (hcancelled : x'.cancelled = x.cancelled)
    (hnext : x.nextOrderId ≤ x'.nextOrderId)
    (hactive : ∀ id, id < x.nextOrderId → (x'.orders id).active →
      (x.orders id).active) : x'.CancelledClosed := by
  intro id hid
  rw [hcancelled] at hid
  obtain ⟨hlt, hclosed⟩ := h id hid
  refine ⟨hlt.trans_le hnext, Bool.eq_false_iff.mpr fun hopen => ?_⟩
  rw [hactive id hlt hopen] at hclosed
  cases hclosed

theorem CancelledClosed.step (hx : x.WellFormed) (h : x.CancelledClosed)
    (hstep : x.step l = some x') : x'.CancelledClosed := by
  cases effect_of_step hx hstep with
  | swept _ _ _ _ _ _ _ _ _ y _ _ _ _ hF =>
    have hnext : y.nextOrderId = x.nextOrderId + 1 := nextOrderId_of_arrays hF.booked.arrays
    have hcancelled : y.cancelled = x.cancelled := (hF.booked.cancelled :)
    refine h.mono ((quiet_restOrClose y _).cancelled.trans hcancelled) ?_ ?_
    · rw [(quiet_restOrClose _ _).nextOrderId]
      omega
    intro id hid hopen
    have hwritten := hF.active id (restOrClose_active hopen)
    rwa [written_of_ne hid.ne] at hwritten
  | queued =>
    refine h.mono (quiet_addToBatch _ _ _ _ _ _ _).cancelled ?_ ?_
    · rw [(quiet_addToBatch _ _ _ _ _ _ _).nextOrderId]
      exact Nat.le_succ _
    · intro id hid hopen
      rwa [orders_addToBatch, written_of_ne hid.ne] at hopen
  | cancelled _ orderId _ hactive =>
    intro id hid
    have hself := x.deactivate_active orderId
    rcases mem_append.mp hid with hid | hid
    · obtain ⟨hlt, hclosed⟩ := h id hid
      refine ⟨hlt, Bool.eq_false_iff.mpr fun hopen => ?_⟩
      rw [((hself id).mp hopen).2] at hclosed
      cases hclosed
    obtain rfl := mem_singleton.mp hid
    refine ⟨?_, Bool.eq_false_iff.mpr fun hopen => ((hself id).mp hopen).1 rfl⟩
    by_contra hlarge
    rw [hx.unwritten id (not_lt.mp hlarge)] at hactive
    cases hactive
  | emptied | custody => exact h
  | dealt _ _ _ _ _ y _ _ hF =>
    refine h.mono (hF.booked.cancelled : y.cancelled = x.cancelled)
      (nextOrderId_of_arrays hF.booked.arrays).ge ?_
    intro id _ hopen
    have hopen' : (y.orders id).active := hopen
    rwa [hF.orders] at hopen'
  | administered _ _ _ hadmin =>
    refine h.mono hadmin.cancelled (nextOrderId_of_arrays hadmin.arrays).ge ?_
    intro _ _ hopen
    rwa [hadmin.orders] at hopen

theorem Reachable.cancelledClosed {self owner : Address} {custody : VaultRun}
    (h : Reachable self owner custody x) : x.CancelledClosed := by
  have hboth : x.WellFormed ∧ x.CancelledClosed :=
    h.invariant (I := fun x => x.WellFormed ∧ x.CancelledClosed)
      (fun _ _ _ hI _ hstep => ⟨hI.1.step hstep, .step hI.1 hI.2 hstep⟩)
      ⟨wellFormed_start self owner custody, fun _ hid => absurd hid not_mem_nil⟩
  exact hboth.2

/-- The fill trades for no order cancelled before. -/
def SparesCancelled (x : Exchange) (f : Fill) : Prop :=
  f.buyOrderId ∉ x.cancelled ∧ f.sellOrderId ∉ x.cancelled
deriving Decidable

theorem sparesCancelled_of_taken (hclosed : x.CancelledClosed) {ctx : Ctx} {trader : Address}
    {side : Side} {orderType : OrderType} {offsetBps : Sint 16} {size : Uint 128}
    {incomingPrice : Sint 256} {id : Nat} (h : Taken x.nextOrderId id incomingPrice oracle
      (x.written ctx trader m side orderType offsetBps size) f) : x.SparesCancelled f := by
  have hspared : ∀ i, i = x.nextOrderId ∨ i = id → i ∉ x.cancelled := by
    intro i hi hcancelled
    obtain ⟨hlt, hinact⟩ := hclosed i hcancelled
    rcases hi with rfl | rfl
    · omega
    have hactive := h.active
    rw [written_of_ne hlt.ne, hinact] at hactive
    cases hactive
  exact ⟨hspared _ ((h.between.touches _).mp (.inl rfl)),
    hspared _ ((h.between.touches _).mp (.inr rfl))⟩

theorem sparesCancelled_of_dealt (h : Dealt m (x.clearing oracle m).price oracle (x.marketStates m)
      (x.clearing oracle m).matchedVolume.val (x.batchBuys m) (x.batchSells m) x F y) :
    (∀ f ∈ F, x.SparesCancelled f) ↔ x.FrontLive m oracle :=
  h.forall_orders (· ∉ x.cancelled) (· ∉ x.cancelled)

theorem sparesCancelled_iff (hwf : x.WellFormed) (hclosed : x.CancelledClosed)
    (h : x.step l = some x') :
    (∀ f ∈ newFills x x', x.SparesCancelled f) ↔ x.CancellationsHold l := by
  obtain ⟨-, hcases⟩ := newFills_cases hwf h
  rcases hcases with
    ⟨ctx, _, m, _, _, _, _, oracle, _, _, rfl, -, hF, -⟩ |
    ⟨ctx, gas, m, oracle, _, rfl, ⟨-, hprice⟩, hF, -⟩ | ⟨hnone, hempty⟩
  · refine iff_of_true (fun f hf => ?_) trivial
    obtain ⟨_, -, htaken⟩ := hF.taken f hf
    exact sparesCancelled_of_taken hclosed htaken
  · have hhold : x.CancellationsHold (.clearBatch ctx gas m) ↔ x.FrontLive m oracle := by
      unfold CancellationsHold
      simp only [hprice, Option.mem_def, Option.some.injEq, forall_eq']
    rw [hhold, sparesCancelled_of_dealt hF]
  refine iff_of_true (fun f hf => ?_) ?_
  · rw [hnone] at hf
    cases hf
  cases l with
  | clearBatch ctx gas m =>
    intro _ _
    unfold FrontLive
    rw [clearing_of_empty (hempty ctx gas m rfl), reached_zero, reached_zero]
    exact ⟨fun q hq => absurd hq not_mem_nil, fun q hq => absurd hq not_mem_nil⟩
  | _ => trivial

theorem cancelled_of_step (hx : x.WellFormed) (h : x.step l = some x')
    (hl : ∀ ctx orderId trader, l ≠ .cancelOrder ctx orderId trader) :
    x'.cancelled = x.cancelled := by
  cases effect_of_step hx h with
  | swept _ _ _ _ _ _ _ _ _ _ _ _ _ _ hF =>
    rw [(quiet_restOrClose _ _).cancelled]
    exact (hF.booked.cancelled :)
  | queued => exact (quiet_addToBatch _ _ _ _ _ _ _).cancelled
  | cancelled ctx orderId trader => exact absurd rfl (hl ctx orderId trader)
  | emptied => rfl
  | dealt _ _ _ _ _ y _ _ hF => exact (hF.booked.cancelled : y.cancelled = x.cancelled)
  | custody => rfl
  | administered _ _ _ hadmin => exact hadmin.cancelled

theorem cancelled_subset_of_step (hx : x.WellFormed) (h : x.step l = some x') :
    x.cancelled ⊆ x'.cancelled := by
  by_cases hl : ∀ ctx orderId trader, l ≠ .cancelOrder ctx orderId trader
  · rw [cancelled_of_step hx h hl]
    exact List.Subset.refl _
  push Not at hl
  obtain ⟨_, _, _, rfl⟩ := hl
  obtain ⟨-, rfl⟩ := cancelOrder_ok (toOption_eq_some.mp h)
  exact subset_append_left _ _

/-- From any state reached: a step executes no fill for an order cancelled before exactly when it
is no clearing whose volume reaches an entry of a cancelled order; and in a run of such steps a
cancelled order has no fill any more. -/
theorem cancellation_final_iff {self owner : Address} {custody : VaultRun}
    (hx : Reachable self owner custody x) : (∀ l x', x.step l = some x' →
      ((∀ f ∈ newFills x x', x.SparesCancelled f) ↔ x.CancellationsHold l)) ∧
    ∀ id ∈ x.cancelled, ∀ x', Path Exchange.step CancellationsHold x x' →
      traded id x'.fills = traded id x.fills ∧ ∃ F, x'.fills = x.fills ++ F ∧
        ∀ f ∈ F, f.buyOrderId ≠ id ∧ f.sellOrderId ≠ id := by
  have hwf := hx.wellFormed
  have hclosed := hx.cancelledClosed
  refine ⟨fun l x' h => sparesCancelled_iff hwf hclosed h, ?_⟩
  intro id hid x' hpath
  -- the order stays cancelled, so each step spares it
  have hinv : (x'.WellFormed ∧ x'.CancelledClosed) ∧ id ∈ x'.cancelled ∧
      ∃ F, x'.fills = x.fills ++ F ∧ ∀ f ∈ F, f.buyOrderId ≠ id ∧ f.sellOrderId ≠ id := by
    refine hpath.invariant (I := fun y : Exchange => (y.WellFormed ∧ y.CancelledClosed) ∧
      id ∈ y.cancelled ∧
        ∃ F, y.fills = x.fills ++ F ∧ ∀ f ∈ F, f.buyOrderId ≠ id ∧ f.sellOrderId ≠ id) ?_
      ⟨⟨hwf, hclosed⟩, hid, [], (append_nil _).symm, fun _ hf => absurd hf not_mem_nil⟩
    rintro y _ z ⟨⟨hy, hyclosed⟩, hyid, F, hfills, hspares⟩ hok hstep
    refine ⟨⟨hy.step hstep, .step hy hyclosed hstep⟩, cancelled_subset_of_step hy hstep hyid,
      F ++ newFills y z, ?_, ?_⟩
    · rw [(newFills_cases hy hstep).1, hfills, append_assoc]
    intro f hf
    rcases mem_append.mp hf with hf | hf
    · exact hspares f hf
    have hspared := (sparesCancelled_iff hy hyclosed hstep).mpr hok f hf
    refine ⟨?_, ?_⟩
    · rintro rfl
      exact hspared.1 hyid
    · rintro rfl
      exact hspared.2 hyid
  obtain ⟨-, -, F, hfills, hspares⟩ := hinv
  refine ⟨?_, F, hfills, hspares⟩
  rw [hfills, traded_append, traded_of_spared hspares, Nat.add_zero]

open SpotRun in
/-- A buy that waits in a batch is cancelled, and the batch fills it. -/
theorem batch_fills_cancelled_order : ∃ x x', Reachable CustodyRun.engine owner vault x ∧
      x.step (.clearBatch (call 2 hundred) 10 7) = some x' ∧
      x.cancelled = [1] ∧ (x.orders 1).active = false ∧
      (newFills x x').map (fun f => (f.buyOrderId, f.size.val)) = [(1, 5)] ∧
      (x.settlement.virtualBalances alice base).val = 0 ∧
      (x'.settlement.virtualBalances alice base).val = 5 ∧
      ¬ ∀ f ∈ newFills x x', x.SparesCancelled f :=
  exists_step_of_run fresh
    (opening .batch 0 ++ [limit alice .buy 0 5, .cancelOrder (call 1 hundred) 1 alice,
      limit bob .sell 0 5])
    (by decide +kernel)

open SpotRun in
/-- A resting sell is cancelled, and a buy that would have crossed it finds nothing. -/
theorem resting_cancelled_order_spared :
    ∃ x x', Reachable CustodyRun.engine owner vault x ∧ x.cancelled = [1] ∧
      x.step (limit bob .buy 0 5) = some x' ∧ traded 1 x'.fills = traded 1 x.fills := by
  have hrun : ∃ x x', Reachable CustodyRun.engine owner vault x ∧
      x.step (limit bob .buy 0 5) = some x' ∧ x.cancelled = [1] :=
    exists_step_of_run fresh
      (opening .continuous 0 ++ [limit alice .sell 0 5, .cancelOrder (call 1 hundred) 1 alice])
      (by decide +kernel)
  obtain ⟨x, x', hx, hstep, hcancelled⟩ := hrun
  refine ⟨x, x', hx, hcancelled, hstep, ?_⟩
  exact ((cancellation_final_iff hx).2 1 (by rw [hcancelled]; simp) x'
    (Path.single (l := limit bob .buy 0 5) trivial hstep)).1

end Exchange

end HyperPax.PaxSpot
