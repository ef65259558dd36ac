/-
  PaxSpot/Lifecycle.lean --- the active flag, the filled size and the containers.

  An order ought to be active exactly while something is left of it and one book or queue
  of its market holds it once.  The source keeps the three apart, and lets them
  drift in four places: the remainder of a MARKET order is dropped without a look at its
  flag, a clearing empties the queues and touches no order, a batch takes orders of
  size zero, and a cancelled order stays where it is.  Runs that avoid these keep
  every order in step.
-/
import HyperPax.PaxSpot.Limits
import HyperPax.PaxSpot.Bookkeeping

set_option autoImplicit false

namespace HyperPax.PaxSpot

open Lib List

namespace Exchange

variable {x x' : Exchange} {l : Label} {side : Side} {m : MarketId} {id : Nat}

/-! ## Places -/

/-- How often the books and queues of its market hold an order. -/
def places (x : Exchange) (id : Nat) : Nat :=
  (x.book .buy (x.orders id).marketId).count id + (x.book .sell (x.orders id).marketId).count id +
  ((x.queue .buy (x.orders id).marketId).map Queued.orderId).count id +
  ((x.queue .sell (x.orders id).marketId).map Queued.orderId).count id

theorem count_book (hx : x.WellFormed) (h : id ∈ x.book side m) (side' : Side) :
    (x.book side' (x.orders id).marketId).count id = if side' = side then 1 else 0 := by
  have hrests := hx.resting side m id h
  rw [hrests.marketId]
  split
  · rename_i hside
    subst hside
    exact count_eq_one_of_mem (hx.nodupBook side' m) h
  · rename_i hside
    refine count_eq_zero.mpr fun h' => hside ?_
    exact (hx.resting side' m id h').side.symm.trans hrests.side

theorem count_queue (hx : x.WellFormed) (h : id ∈ (x.queue side m).map Queued.orderId)
    (side' : Side) : ((x.queue side' (x.orders id).marketId).map Queued.orderId).count id =
      if side' = side then 1 else 0 := by
  obtain ⟨q, hq, rfl⟩ := mem_map.mp h
  have hdesc := hx.queued side m q hq
  rw [hdesc.marketId]
  split
  · rename_i hside
    subst hside
    exact count_eq_one_of_mem (hx.nodupQueue side' m) h
  rename_i hside
  refine count_eq_zero.mpr fun h' => hside ?_
  obtain ⟨q', hq', hid⟩ := mem_map.mp h'
  have hdesc' := hx.queued side' m q' hq'
  rw [hid] at hdesc'
  exact hdesc'.side.symm.trans hdesc.side

/-- One place is any place. -/
theorem places_eq_one_iff (hx : x.WellFormed) (id : Nat) : x.places id = 1 ↔ x.Listed id := by
  constructor
  · intro h
    by_contra hnone
    unfold Listed at hnone
    push Not at hnone
    obtain ⟨hbook, hqueue⟩ := hnone
    unfold places at h
    rw [count_eq_zero.mpr (hbook _ _), count_eq_zero.mpr (hbook _ _),
      count_eq_zero.mpr (hqueue _ _), count_eq_zero.mpr (hqueue _ _)] at h
    cases h
  · rintro (⟨side, m, h⟩ | ⟨side, m, h⟩)
    · have hapart := hx.apart side m id h
      unfold places
      rw [count_book hx h, count_book hx h, count_eq_zero.mpr (hapart _ _),
        count_eq_zero.mpr (hapart _ _)]
      cases side <;> rfl
    · have hapart : ∀ side' m', id ∉ x.book side' m' :=
        fun side' m' h' => hx.apart side' m' id h' side m h
      unfold places
      rw [count_queue hx h, count_queue hx h, count_eq_zero.mpr (hapart _ _),
        count_eq_zero.mpr (hapart _ _)]
      cases side <;> rfl

/-! ## Liquidity for a MARKET order -/

/-- What is left of the active entries that an incoming order crosses. -/
def liquidity (x : Exchange) (side : Side) (m : MarketId) (incomingPrice oraclePrice : Sint 256) :
    Nat :=
  (((x.book side.opposite m).filter fun id => (x.orders id).active ∧
      PricesCross side incomingPrice (resolveOffset oraclePrice (x.orders id).offsetBps)).map
    fun id => (x.orders id).size.val - (x.orders id).filledSize.val).sum

theorem sum_traded_le (incomingId : Nat) {F : List Fill} {S : Finset Nat} (hnew : incomingId ∉ S)
    (h : ∀ f ∈ F, f.buyOrderId = incomingId ∨ f.sellOrderId = incomingId) :
    ∑ id ∈ S, traded id F ≤ fillVolume F := by
  induction F with
  | nil => simp
  | cons f F ih =>
    have hrest := ih fun g hg => h g (mem_cons_of_mem _ hg)
    -- of the two orders of the fill one is the incoming order, so at most one is in `S`
    obtain ⟨other, hother⟩ : ∃ other, ∀ id ∈ S,
        (f.buyOrderId = id ∨ f.sellOrderId = id) ↔ id = other := by
      rcases h f mem_cons_self with hbuy | hsell
      · refine ⟨f.sellOrderId, fun id hid => ?_⟩
        have hne : f.buyOrderId ≠ id := by
          rintro rfl
          exact hnew (hbuy ▸ hid)
        simp only [hne, false_or, eq_comm]
      · refine ⟨f.buyOrderId, fun id hid => ?_⟩
        have hne : f.sellOrderId ≠ id := by
          rintro rfl
          exact hnew (hsell ▸ hid)
        simp only [hne, or_false, eq_comm]
    have hpoint : ∀ id ∈ S, traded id (f :: F) =
        (if id = other then f.size.val else 0) + traded id F := by
      intro id hid
      have hcons : traded id (f :: F) = traded id [f] + traded id F := traded_append id [f] F
      rw [hcons, traded_singleton]
      simp only [hother id hid]
    rw [Finset.sum_congr rfl hpoint, Finset.sum_add_distrib, Finset.sum_ite_eq', fillVolume_cons]
    split <;> omega

section

variable {ctx : Ctx} {trader : Address} {m : MarketId} {side : Side} {orderType : OrderType}
  {offsetBps : Sint 16} {size : Uint 128} {oracle : Sint 256} {F : List Fill} {y : Exchange}
  {left : Uint 128}

/-- An order that crosses enough liquidity is filled to its end. -/
theorem left_eq_zero_of_liquidity (hx : x.WellFormed)
    (hflagged : ∀ id ∈ x.book side.opposite m, (x.orders id).active → (x.orders id).Flagged)
    (hF : SweptFor ctx x trader m side orderType offsetBps size oracle F y left)
    (henough : size.val ≤ x.liquidity side m
      (incomingAbsPrice (newOrder ctx x.nextOrderId trader m side orderType offsetBps size)
        oracle) oracle) : left.val = 0 := by
  by_contra hleft
  have hdone := hF.uncrossed.resolve_left hleft
  set crossed := (x.book side.opposite m).filter fun id => (x.orders id).active ∧
    PricesCross side
      (incomingAbsPrice (newOrder ctx x.nextOrderId trader m side orderType offsetBps size)
        oracle) (resolveOffset oracle (x.orders id).offsetBps) with hcrossed
  have hnew : x.nextOrderId ∉ crossed := fun hid =>
    hx.not_listed le_rfl (.inl ⟨_, _, (mem_filter.mp hid).1⟩)
  -- every entry that was crossed is closed, so its fills are all that was left of it
  have hclosed : ∀ id ∈ crossed,
      (x.orders id).size.val - (x.orders id).filledSize.val ≤ traded id F := by
    intro id hid
    obtain ⟨hbook, hlive⟩ := mem_filter.mp hid
    obtain ⟨hactive, hcross⟩ := of_decide_eq_true hlive
    have hne : id ≠ x.nextOrderId := fun heq => hnew (heq ▸ hid)
    have hsame : (x.written ctx trader m side orderType offsetBps size).orders id = x.orders id :=
      written_of_ne hne
    have hafter : (y.orders id).Flagged :=
      hF.flagged id hne (by rw [hsame]; exact hflagged id hbook hactive)
    have hinact : ¬ (y.orders id).active := by
      intro hopen
      refine hdone id hbook hopen ?_
      rw [hsame, written_self]
      exact hcross
    have hfull := mt hafter.mpr hinact
    rw [hF.filledSize, Order.size_of_terms (hF.terms id), hsame] at hfull
    omega
  have hsum : (crossed.map fun id => (x.orders id).size.val - (x.orders id).filledSize.val).sum ≤
      fillVolume F := by
    refine (sum_le_sum hclosed).trans ?_
    rw [← sum_toFinset (fun id => traded id F) ((hx.nodupBook side.opposite m).filter _)]
    refine sum_traded_le x.nextOrderId ?_ ?_
    · rw [mem_toFinset]
      exact hnew
    intro f hf
    obtain ⟨_, -, htaken⟩ := hF.taken f hf
    exact (htaken.between.touches _).mpr (.inl rfl)
  have hspent := hF.spent
  unfold liquidity at henough
  rw [← hcrossed] at henough
  omega

end

/-! ## The lifecycle -/

/-- The order is active exactly while something is left of it and its market holds it once. -/
def InStep (x : Exchange) (id : Nat) : Prop :=
  (x.orders id).active ↔
    (x.orders id).filledSize.val < (x.orders id).size.val ∧ x.places id = 1
deriving Decidable

/-- A step that leaves no order out of step: a MARKET order crosses liquidity for its whole size, an
order for a batch is not empty, and a clearing finds no entry of an order that was not cancelled. -/
def KeepsStep (x : Exchange) : Label → Prop
  | .placeOrder ctx trader m side orderType offsetBps size =>
    ((x.marketStates m).mode = .continuous → orderType = .market →
      ∀ oraclePrice ∈ ctx.price m, size.val ≤ x.liquidity side m
        (incomingAbsPrice (newOrder ctx x.nextOrderId trader m side orderType offsetBps size)
          oraclePrice) oraclePrice) ∧
    ((x.marketStates m).mode = .batch → 0 < size.val)
  | .clearBatch _ _ m => ∀ q ∈ x.batchBuys m ++ x.batchSells m, q.orderId ∈ x.cancelled
  | _ => True

instance (x : Exchange) (l : Label) : Decidable (x.KeepsStep l) :=
  match l with
  | .placeOrder .. => inferInstanceAs (Decidable (_ ∧ _))
  | .clearBatch _ _ m => inferInstanceAs (Decidable (∀ q ∈ x.batchBuys m ++ x.batchSells m, _))
  | .cancelOrder .. | .createMarket .. | .setMarketMode .. | .setRouter .. | .pause ..
  | .unpause .. | .custody .. => .isTrue trivial

/-- Such a step that cancels nothing. -/
def KeepsAll (x : Exchange) : Label → Prop
  | .cancelOrder .. => False
  | l => x.KeepsStep l

/-- The lifecycle, in terms of lists: every order that was not cancelled is in step. -/
def Lively (x : Exchange) : Prop :=
  ∀ id, id ∉ x.cancelled → ((x.orders id).active ↔
    (x.orders id).filledSize.val < (x.orders id).size.val ∧ x.Listed id)

theorem Lively.inStep (hx : x.WellFormed) (h : x.Lively) (hid : id ∉ x.cancelled) :
    x.InStep id := by
  unfold InStep
  rw [places_eq_one_iff hx]
  exact h id hid

theorem Lively.flagged (h : x.Lively) (hid : id ∉ x.cancelled) (hlisted : x.Listed id) :
    (x.orders id).Flagged := by
  unfold Order.Flagged
  rw [h id hid]
  simp only [hlisted, and_true]

theorem Lively.congr (h : x.Lively) (hcancelled : x.cancelled ⊆ x'.cancelled)
    (horders : ∀ id, id ∉ x'.cancelled → x'.orders id = x.orders id)
    (hlisted : ∀ id, id ∉ x'.cancelled → (x'.Listed id ↔ x.Listed id)) : x'.Lively := by
  intro id hid
  rw [horders id hid, hlisted id hid]
  exact h id fun hbefore => hid (hcancelled hbefore)

section

variable {ctx : Ctx} {trader : Address} {m : MarketId} {side : Side} {orderType : OrderType}
  {offsetBps : Sint 16} {size : Uint 128} {oracle : Sint 256} {F : List Fill} {y : Exchange}
  {left : Uint 128}

variable {id : Nat}

theorem listed_restOrClose_of_ne {i : Nat} (hne : i ≠ id) :
    (y.restOrClose id).Listed i ↔ y.Listed i := by
  unfold Listed
  simp only [queue_restOrClose]
  refine or_congr ?_ .rfl
  rcases restOrClose_cases y id with ⟨-, heq⟩ | ⟨-, -, heq⟩ | ⟨-, -, heq⟩
  · rw [heq]
    rfl
  · simp only [heq, book_rest]
    constructor
    · rintro ⟨side', m', hi⟩
      split at hi
      · exact ⟨side', m', (mem_append.mp hi).resolve_right
          fun h => hne (mem_singleton.mp h)⟩
      · exact ⟨side', m', hi⟩
    · rintro ⟨side', m', hi⟩
      refine ⟨side', m', ?_⟩
      split
      · exact mem_append_left _ hi
      · exact hi
  · rw [heq]

theorem restOrClose_orders_of_ne {i : Nat} (hne : i ≠ id) :
    (y.restOrClose id).orders i = y.orders i := by
  rcases restOrClose_cases y id with ⟨-, heq⟩ | ⟨-, -, heq⟩ | ⟨-, -, heq⟩
  · rw [heq, y.deactivate_of_ne id hne]
  · rw [heq, orders_rest]
  · rw [heq]

theorem newcomer_lively (hactive : (y.orders id).active) (htype : (y.orders id).orderType = .limit ∨
      (y.orders id).size.val ≤ (y.orders id).filledSize.val) :
    ((y.restOrClose id).orders id).active ↔
      ((y.restOrClose id).orders id).filledSize.val < ((y.restOrClose id).orders id).size.val ∧
        (y.restOrClose id).Listed id := by
  rcases restOrClose_cases y id with ⟨hfull, heq⟩ | ⟨hopen, -, heq⟩ | ⟨hopen, hmarket, -⟩
  · rw [heq, y.deactivate_self]
    refine iff_of_false (by simp) fun h => ?_
    have hlt := h.1
    dsimp only at hlt
    omega
  · rw [heq, orders_rest]
    refine iff_of_true hactive ⟨hopen, .inl ⟨(y.orders id).side, (y.orders id).marketId, ?_⟩⟩
    rw [book_rest, if_pos ⟨rfl, rfl⟩]
    simp
  · rcases htype with hlimit | _
    · rw [hmarket] at hlimit
      cases hlimit
    · omega

theorem Lively.place (h : x.Lively)
    (hF : SweptFor ctx x trader m side orderType offsetBps size oracle F y left)
    (henough : orderType = .market → left.val = 0) : (y.restOrClose x.nextOrderId).Lively := by
  have harrays := hF.booked.arrays
  have hcancelled : (y.restOrClose x.nextOrderId).cancelled = x.cancelled :=
    (quiet_restOrClose y _).cancelled.trans (hF.booked.cancelled :)
  have hlisted : ∀ i, y.Listed i ↔ x.Listed i := by
    intro _
    rw [listed_of_arrays harrays]
    refine or_congr ?_ ?_
    · refine exists_congr fun side' => ?_
      cases side' <;> rfl
    · refine exists_congr fun side' => ?_
      cases side' <;> rfl
  intro id hid
  rw [hcancelled] at hid
  by_cases hnew : id = x.nextOrderId
  · subst hnew
    obtain ⟨_, hn⟩ := hF.incoming
    rw [written_self] at hn
    have hterms := hF.terms x.nextOrderId
    rw [written_self] at hterms
    refine newcomer_lively (by rw [hn]; rfl) ?_
    cases orderType with
    | limit => exact .inl (Order.orderType_of_terms hterms)
    | market =>
      right
      have hspent := hF.left_eq
      rw [written_self, henough rfl, Nat.zero_add] at hspent
      rw [hspent, Order.size_of_terms hterms]
      exact Nat.le_add_right _ _
  · rw [restOrClose_orders_of_ne hnew, listed_restOrClose_of_ne hnew, hlisted]
    by_cases hbook : id ∈ x.book side.opposite m
    · have hmem : x.Listed id := .inl ⟨_, _, hbook⟩
      have hbefore := h.flagged hid hmem
      have hsame : (x.written ctx trader m side orderType offsetBps size).orders id =
          x.orders id := written_of_ne hnew
      rw [← hsame] at hbefore
      have hafter : (y.orders id).Flagged := hF.flagged id hnew hbefore
      unfold Order.Flagged at hafter
      rw [hafter]
      simp only [hmem, and_true]
    · rw [hF.others id hnew hbook, written_of_ne hnew]
      exact h id hid

end

/-- An order for a batch is active, whole and listed. -/
theorem Lively.queue (h : x.Lively) {ctx : Ctx} {trader : Address} {orderType : OrderType}
    {offsetBps : Sint 16} {size : Uint 128} (hpos : 0 < size.val) :
    ((x.written ctx trader m side orderType offsetBps size).addToBatch x.nextOrderId trader m side
      offsetBps size).Lively := by
  have hbook : ∀ side' m', (x.written ctx trader m side orderType offsetBps size).book side' m' =
      x.book side' m' := by
    intro side' m'
    cases side' <;> rfl
  have hqueue : ∀ side' m', (x.written ctx trader m side orderType offsetBps size).queue side' m' =
      x.queue side' m' := by
    intro side' m'
    cases side' <;> rfl
  intro id hid
  rw [(quiet_addToBatch _ _ _ _ _ _ _).cancelled] at hid
  rw [orders_addToBatch]
  by_cases hnew : id = x.nextOrderId
  · subst hnew
    rw [written_self]
    refine iff_of_true rfl ⟨hpos, .inr ⟨side, m, ?_⟩⟩
    rw [queue_addToBatch, if_pos ⟨rfl, rfl⟩]
    simp
  rw [written_of_ne hnew, h id hid]
  refine and_congr_right fun _ => ?_
  unfold Listed
  simp only [book_addToBatch, queue_addToBatch, hbook, hqueue]
  refine or_congr .rfl ?_
  constructor
  · rintro ⟨side', m', hq⟩
    refine ⟨side', m', ?_⟩
    split
    · rw [map_append]
      exact mem_append_left _ hq
    · exact hq
  · rintro ⟨side', m', hq⟩
    refine ⟨side', m', ?_⟩
    split at hq
    · rw [map_append, mem_append] at hq
      exact hq.resolve_right fun heq => hnew (mem_singleton.mp heq)
    · exact hq

theorem listed_clearBatchState (hid : ∀ q ∈ x.batchBuys m ++ x.batchSells m, q.orderId ≠ id) :
    (x.clearBatchState m).Listed id ↔ x.Listed id := by
  refine or_congr ?_ (exists_congr fun side => exists_congr fun m' => ?_)
  · refine exists_congr fun side => ?_
    cases side <;> rfl
  by_cases hm : m' = m
  · subst hm
    have hnone : id ∉ (x.queue side m').map Queued.orderId := by
      intro h
      obtain ⟨q, hq, heq⟩ := mem_map.mp h
      refine hid q ?_ heq
      cases side
      · exact mem_append_left _ hq
      · exact mem_append_right _ hq
    have hcleared : (x.clearBatchState m').queue side m' = [] := by
      cases side <;> simp [Exchange.clearBatchState, Exchange.queue]
    rw [hcleared]
    exact iff_of_false (by simp) hnone
  · have hkept : (x.clearBatchState m).queue side m' = x.queue side m' := by
      cases side <;> simp [Exchange.clearBatchState, Exchange.queue, hm]
    rw [hkept]

theorem KeepsStep.unlisted {ctx : Ctx} {gas : Nat} (hok : x.KeepsStep (.clearBatch ctx gas m))
    (hid : id ∉ x.cancelled) : ∀ q ∈ x.batchBuys m ++ x.batchSells m, q.orderId ≠ id := by
  rintro q hq rfl
  exact hid (hok q hq)

theorem Lively.step (hx : x.WellFormed) (hclosed : x.CancelledClosed) (h : x.Lively)
    (hok : x.KeepsStep l) (hstep : x.step l = some x') : x'.Lively := by
  cases effect_of_step hx hstep with
  | swept _ _ _ _ _ _ _ oracle _ _ _ _ hmode hprice hF =>
    refine h.place hF fun hmarket => ?_
    refine left_eq_zero_of_liquidity hx (fun id hid hactive => ?_) hF
      (hok.1 hmode hmarket oracle hprice)
    refine h.flagged (fun hcancelled => ?_) (.inl ⟨_, _, hid⟩)
    rw [(hclosed id hcancelled).2] at hactive
    cases hactive
  | queued _ _ _ _ _ _ _ _ hmode => exact h.queue (hok.2 hmode)
  | cancelled _ orderId =>
    refine h.congr (subset_append_left _ _) (fun id hid => ?_) (fun id _ => .rfl)
    refine x.deactivate_of_ne orderId ?_
    rintro rfl
    exact hid (mem_append_right _ (mem_singleton_self _))
  | emptied =>
    refine h.congr (List.Subset.refl _) (fun _ _ => rfl) fun id hid => ?_
    exact listed_clearBatchState (KeepsStep.unlisted hok hid)
  | dealt _ _ m _ _ y _ _ hF =>
    have harrays := hF.booked.arrays
    have hcancelled := hF.booked.cancelled
    have hbuys : y.batchBuys m = x.batchBuys m := queue_of_arrays harrays .buy m
    have hsells : y.batchSells m = x.batchSells m := queue_of_arrays harrays .sell m
    refine h.congr ?_ (fun id _ => ?_) fun id hid => ?_
    · exact fun id hid => (hcancelled.symm ▸ hid : id ∈ y.cancelled)
    · exact congrFun hF.orders id
    have hid' : id ∉ x.cancelled := fun hx' => hid (hcancelled.symm ▸ hx' : id ∈ y.cancelled)
    have hcleared : (y.clearBatchState m).Listed id ↔ y.Listed id := by
      refine listed_clearBatchState ?_
      rw [hbuys, hsells]
      exact KeepsStep.unlisted hok hid'
    exact hcleared.trans (listed_of_arrays harrays id)
  | custody => exact h
  | administered _ _ _ hadmin =>
    refine h.congr ?_ (fun id _ => by rw [hadmin.orders])
      fun id _ => listed_of_arrays hadmin.arrays id
    rw [hadmin.cancelled]
    exact List.Subset.refl _

theorem lively_of_path {self owner : Address} {custody : VaultRun}
    (h : Path Exchange.step KeepsStep (start self owner custody) x) : x.Lively := by
  have hinv : Reachable self owner custody x ∧ x.Lively := by
    refine h.invariant (I := fun x => Reachable self owner custody x ∧ x.Lively) ?_
      ⟨.refl, fun id _ => ?_⟩
    · rintro _ l _ ⟨hy, hlively⟩ hok hstep
      exact ⟨.tail l hy trivial hstep, hlively.step hy.wellFormed hy.cancelledClosed hok hstep⟩
    · refine iff_of_false (fun hactive => nomatch hactive) fun hlisted => ?_
      exact absurd hlisted.1 (Nat.lt_irrefl _)
  exact hinv.2

theorem cancelled_of_keepsAll {self owner : Address} {custody : VaultRun}
    (h : Path Exchange.step KeepsAll (start self owner custody) x) : x.cancelled = [] := by
  have hinv : Reachable self owner custody x ∧ x.cancelled = [] := by
    refine h.invariant (I := fun x => Reachable self owner custody x ∧ x.cancelled = []) ?_
      ⟨.refl, rfl⟩
    rintro _ l _ ⟨hy, hnone⟩ hok hstep
    refine ⟨.tail l hy trivial hstep, ?_⟩
    rw [← hnone]
    exact cancelled_of_step hy.wellFormed hstep fun ctx orderId trader heq => by
      rw [heq] at hok
      exact hok
  exact hinv.2

/-- In a run whose steps all keep their orders in step, every order that was not cancelled is active
exactly while something is left of it and its market holds it once, and cancelled orders are not
active.  If nothing is cancelled either, that is every order. -/
theorem lifecycle_of_path {self owner : Address} {custody : VaultRun} :
    (Path Exchange.step KeepsAll (start self owner custody) x → ∀ id, x.InStep id) ∧
    (Path Exchange.step KeepsStep (start self owner custody) x →
      (∀ id, id ∉ x.cancelled → x.InStep id) ∧
        ∀ id ∈ x.cancelled, (x.orders id).active = false) := by
  have hkeeps : ∀ t l, KeepsAll t l → KeepsStep t l := by
    intro _ l hl
    cases l <;> first | exact hl | exact hl.elim
  refine ⟨fun h id => ?_, fun h => ⟨fun id hid => ?_, fun id hid => ?_⟩⟩
  · have hreach : Reachable self owner custody x := h.mono fun _ _ _ => trivial
    refine (lively_of_path (h.mono hkeeps)).inStep hreach.wellFormed ?_
    rw [cancelled_of_keepsAll h]
    exact not_mem_nil
  · have hreach : Reachable self owner custody x := h.mono fun _ _ _ => trivial
    exact (lively_of_path h).inStep hreach.wellFormed hid
  · have hreach : Reachable self owner custody x := h.mono fun _ _ _ => trivial
    exact (hreach.cancelledClosed id hid).2

open SpotRun in
/-- A MARKET buy finds an empty book: it stays active, and nothing holds it. -/
theorem unfilled_market_order_stays_active :
    ∃ x, Reachable CustodyRun.engine owner vault x ∧ x.nextOrderId = 2 ∧
      ((x.orders 1).active ∧ (x.orders 1).filledSize.val = 0 ∧ (x.orders 1).size.val = 5) ∧
      x.places 1 = 0 ∧ ¬ x.InStep 1 :=
  exists_path fresh
    (opening .continuous 0 ++
      [.placeOrder (call 1 hundred) alice 7 .buy .market Sint.zero (Uint.truncate 5)])
    (by decide +kernel)

open SpotRun in
/-- A MARKET buy takes part of a resting sell; another buy rests; a third waits for a batch. -/
theorem orders_in_step_in_both_modes : ∃ x, Path Exchange.step KeepsStep fresh x ∧
      (x.orders 1).filledSize.val = 2 ∧ x.places 1 = 1 ∧ x.places 2 = 0 ∧ x.places 3 = 1 ∧
      x.places 4 = 1 ∧ ∀ id, id ∉ x.cancelled → x.InStep id := by
  have hrun : ∃ x, Path Exchange.step KeepsStep fresh x ∧
      (x.orders 1).filledSize.val = 2 ∧ x.places 1 = 1 ∧ x.places 2 = 0 ∧ x.places 3 = 1 ∧
      x.places 4 = 1 :=
    exists_path fresh
      (opening .continuous 0 ++ [limit alice .sell 10 5,
        .placeOrder (call 1 hundred) bob 7 .buy .market Sint.zero (Uint.truncate 2),
        limit bob .buy 0 5, .setMarketMode owner 7 .batch, limit bob .buy 20 5])
      (by decide +kernel)
  obtain ⟨x, hpath, hfilled, h₁, h₂, h₃, h₄⟩ := hrun
  exact ⟨x, hpath, hfilled, h₁, h₂, h₃, h₄, (lifecycle_of_path.2 hpath).1⟩

end Exchange

end HyperPax.PaxSpot
