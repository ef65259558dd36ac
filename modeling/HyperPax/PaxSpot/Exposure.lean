/-
  PaxSpot/Exposure.lean --- how far the orders of a trader can still go.

  No order ever trades more than its size, batches included (`Spent`): a resting order
  keeps the count itself, and a queue is dealt out once.  What an order traded and
  what it may still trade together never grow.  Summed over one side of a trader's
  orders in a market they grow only when such an order is placed
  (`reach_of_step`).
-/
import HyperPax.PaxSpot.Bookkeeping

set_option autoImplicit false

namespace HyperPax.PaxSpot

open Lib PaxSpot.Order List Queued

/-! ## Entries of one order -/

variable {qs : List Queued}

theorem orderVolume_of_not_mem {id : Nat} (h : id ∉ qs.map orderId) :
    orderVolume id qs = 0 := by
  have hnone : qs.filter (fun q => q.orderId = id) = [] := by
    rw [filter_eq_nil_iff]
    intro q hq heq
    exact h (mem_map.mpr ⟨q, hq, of_decide_eq_true heq⟩)
  rw [orderVolume, hnone]
  rfl

theorem orderVolume_of_mem {q : Queued} (hnodup : (qs.map orderId).Nodup) (hq : q ∈ qs) :
    orderVolume q.orderId qs = q.entry.size.val := by
  induction qs with
  | nil => cases hq
  | cons head qs ih =>
    rw [map_cons, nodup_cons] at hnodup
    have hcons : ∀ id, orderVolume id (head :: qs) =
        (if head.orderId = id then head.entry.size.val else 0) + orderVolume id qs := by
      intro id
      unfold orderVolume
      by_cases hid : head.orderId = id <;> simp [hid]
    rw [hcons]
    cases mem_cons.mp hq with
    | inl heq =>
      subst heq
      rw [if_pos rfl, orderVolume_of_not_mem hnodup.1, Nat.add_zero]
    | inr hmem =>
      have hne : head.orderId ≠ q.orderId := by
        intro heq
        apply hnodup.1
        rw [heq]
        exact mem_map_of_mem hmem
      rw [if_neg hne, Nat.zero_add, ih hnodup.2 hmem]

/-- The size of the order a call places for a trader on one side of a market. -/
def Label.placed (l : Label) (trader : Address) (m : MarketId) (side : Side) : Nat :=
  match l with
  | .placeOrder _ trader' m' side' _ _ size =>
    if trader' = trader ∧ m' = m ∧ side' = side then size.val else 0
  | _ => 0

namespace Exchange

variable {x x' : Exchange} {l : Label}

theorem orderVolume_queues_le (hx : x.WellFormed) (m : MarketId) (id : Nat) :
    orderVolume id (x.batchBuys m) + orderVolume id (x.batchSells m) ≤ (x.orders id).size.val := by
  have hone : ∀ side, id ∈ (x.queue side m).map orderId →
      (x.orders id).side = side ∧ orderVolume id (x.queue side m) = (x.orders id).size.val := by
    intro side hid
    obtain ⟨q, hq, rfl⟩ := mem_map.mp hid
    have hdesc := hx.queued side m q hq
    refine ⟨hdesc.side, ?_⟩
    rw [orderVolume_of_mem (hx.nodupQueue side m) hq, hdesc.size]
  by_cases hbuy : id ∈ (x.queue .buy m).map orderId
  · obtain ⟨hside, hvolume⟩ := hone .buy hbuy
    have hsell : id ∉ (x.queue .sell m).map orderId := by
      intro hsell
      have hother := (hone .sell hsell).1
      rw [hside] at hother
      cases hother
    have hnone : orderVolume id (x.batchSells m) = 0 := orderVolume_of_not_mem hsell
    rw [hnone]
    exact hvolume.le
  · have hnone : orderVolume id (x.batchBuys m) = 0 := orderVolume_of_not_mem hbuy
    rw [hnone, Nat.zero_add]
    by_cases hsell : id ∈ (x.queue .sell m).map orderId
    · exact (hone .sell hsell).2.le
    have hempty : orderVolume id (x.batchSells m) = 0 := orderVolume_of_not_mem hsell
    rw [hempty]
    exact Nat.zero_le _

/-! ## No order trades more than its size -/

/-- A resting order counts its fills, a queued one has none, and none has more than its size. -/
structure Spent (x : Exchange) : Prop where
  bounded : ∀ id, traded id x.fills ≤ (x.orders id).size.val
  resting : ∀ side m, ∀ id ∈ x.book side m, (x.orders id).filledSize.val = traded id x.fills
  queued : ∀ side m, ∀ q ∈ x.queue side m, traded q.orderId x.fills = 0

namespace Spent

theorem shrink (h : x.Spent) (hfills : x'.fills = x.fills)
    (hfilled : ∀ id, (x'.orders id).filledSize = (x.orders id).filledSize)
    (hsize : ∀ id, (x'.orders id).size = (x.orders id).size)
    (hbook : ∀ side m, x'.book side m ⊆ x.book side m)
    (hqueue : ∀ side m, x'.queue side m ⊆ x.queue side m) : x'.Spent := by
  refine ⟨fun id => ?_, fun side m id hid => ?_, fun side m q hq => ?_⟩
  · rw [hfills, hsize]
    exact h.bounded id
  · rw [hfills, hfilled]
    exact h.resting side m id (hbook side m hid)
  · rw [hfills]
    exact h.queued side m q (hqueue side m hq)

theorem written (h : x.Spent) (hx : x.WellFormed) (hsided : ∀ f ∈ x.fills, x.Sided f) (ctx : Ctx)
    (trader : Address) (m : MarketId) (side : Side) (orderType : OrderType) (offsetBps : Sint 16)
    (size : Uint 128) : (x.written ctx trader m side orderType offsetBps size).Spent := by
  refine ⟨fun id => ?_, fun side' m' id hid => ?_, fun side' m' q hq => ?_⟩
  · by_cases hid : id = x.nextOrderId
    · subst hid
      have hnone : traded x.nextOrderId
          (x.written ctx trader m side orderType offsetBps size).fills =
          0 := traded_unplaced hsided le_rfl
      rw [hnone]
      exact Nat.zero_le _
    · rw [written_of_ne hid]
      exact h.bounded id
  · have hid' : id ∈ x.book side' m' := by cases side' <;> exact hid
    rw [written_of_ne (hx.placed id (.inl ⟨side', m', hid'⟩)).ne]
    exact h.resting side' m' id hid'
  · have hq' : q ∈ x.queue side' m' := by cases side' <;> exact hq
    exact h.queued side' m' q hq'

variable {oracle : Sint 256} {market : MarketState} {size : Uint 128} {F : List Fill}
  {y : Exchange}

variable (h : x.Spent)

include h

/-- The loop counts in the orders what it fills. -/
theorem swept {incomingId : Nat} {side : Side} {m : MarketId} {incomingPrice : Sint 256}
    {left : Uint 128} (hx : x.WellFormed) (hnew : ¬ x.Listed incomingId)
    (hsize : (x.orders incomingId).size = size) (hnone : traded incomingId x.fills = 0)
    (hF : Swept incomingId (x.book side m) incomingPrice oracle market x size F y left) :
    y.Spent := by
  have harrays := hF.booked.arrays
  have huntaken : ∀ id, id ≠ incomingId → id ∉ x.book side m → traded id F = 0 := by
    intro id hne hid
    refine traded_of_spared fun f hf => not_or.mp fun htouch => ?_
    obtain ⟨_, hi, htaken⟩ := hF.taken f hf
    cases (htaken.between.touches id).mp htouch with
    | inl heq => exact hne heq
    | inr heq => exact hid (heq ▸ hi)
  refine ⟨fun id => ?_, fun side' m' id hid => ?_, fun side' m' q hq => ?_⟩
  · rw [hF.booked.fills, traded_append, size_of_terms (hF.terms id)]
    by_cases hinc : id = incomingId
    · subst hinc
      have hspent := hF.spent
      rw [hnone, hF.traded_incoming, hsize]
      omega
    by_cases hid : id ∈ x.book side m
    · have hcount := h.resting side m id hid
      have hbounded := hF.bounded id hinc (hcount ▸ h.bounded id)
      rw [hF.filledSize, hcount, size_of_terms (hF.terms id)] at hbounded
      exact hbounded
    · rw [huntaken id hinc hid, Nat.add_zero]
      exact h.bounded id
  · rw [book_of_arrays harrays] at hid
    rw [hF.booked.fills, traded_append, hF.filledSize, h.resting side' m' id hid]
  · rw [queue_of_arrays harrays] at hq
    have hmem : q.orderId ∈ (x.queue side' m').map orderId := mem_map_of_mem hq
    have hne : q.orderId ≠ incomingId := by
      intro heq
      apply hnew
      exact .inr ⟨side', m', heq ▸ hmem⟩
    have hbook : q.orderId ∉ x.book side m := fun hid => hx.apart side m _ hid side' m' hmem
    rw [hF.booked.fills, traded_append, h.queued side' m' q hq, huntaken _ hne hbook]

theorem restOrClose {id : Nat} (hcount : (x.orders id).filledSize.val = traded id x.fills) :
    (x.restOrClose id).Spent := by
  refine ⟨fun i => ?_, fun side m i hi => ?_, fun side m q hq => ?_⟩
  · rw [(quiet_restOrClose _ _).fills, size_of_terms (restOrClose_terms x id i)]
    exact h.bounded i
  · rw [(quiet_restOrClose _ _).fills, restOrClose_filledSize]
    rcases mem_book_restOrClose hi with hi | ⟨rfl, -⟩
    · exact h.resting side m i hi
    · exact hcount
  · rw [queue_restOrClose] at hq
    rw [(quiet_restOrClose _ _).fills]
    exact h.queued side m q hq

theorem addToBatch {id : Nat} {trader : Address} {m : MarketId} {side : Side}
    {offsetBps : Sint 16} (hnone : traded id x.fills = 0) :
    (x.addToBatch id trader m side offsetBps size).Spent := by
  refine ⟨fun i => ?_, fun side' m' i hi => ?_, fun side' m' q hq => ?_⟩
  · rw [(quiet_addToBatch _ _ _ _ _ _ _).fills, orders_addToBatch]
    exact h.bounded i
  · rw [book_addToBatch] at hi
    rw [(quiet_addToBatch _ _ _ _ _ _ _).fills, orders_addToBatch]
    exact h.resting side' m' i hi
  rw [queue_addToBatch] at hq
  rw [(quiet_addToBatch _ _ _ _ _ _ _).fills]
  split at hq
  · cases mem_append.mp hq with
    | inl hq => exact h.queued side' m' q hq
    | inr hq =>
      rw [mem_singleton.mp hq]
      exact hnone
  · exact h.queued side' m' q hq

theorem dealt {m : MarketId} {clearingPrice : Sint 256} {volume : Nat} (hx : x.WellFormed)
    (hF : Dealt m clearingPrice oracle market volume (x.batchBuys m) (x.batchSells m) x F y) :
    (y.clearBatchState m).Spent := by
  have harrays := hF.booked.arrays
  have hfills : ∀ id, traded id (y.clearBatchState m).fills = traded id x.fills + traded id F := by
    intro id
    rw [← traded_append, ← hF.booked.fills]
    rfl
  have horders : (y.clearBatchState m).orders = x.orders := hF.orders
  have hspared : ∀ id, (∀ side, id ∉ (x.queue side m).map orderId) → traded id F = 0 := by
    intro id hid
    have hbounded : traded id F ≤ orderVolume id (x.queue .buy m) +
        orderVolume id (x.queue .sell m) := hF.bounded id
    rw [orderVolume_of_not_mem (hid .buy), orderVolume_of_not_mem (hid .sell)] at hbounded
    exact Nat.le_zero.mp hbounded
  refine ⟨fun id => ?_, fun side m' id hid => ?_, fun side m' q hq => ?_⟩
  · rw [hfills, horders]
    by_cases hid : ∃ side, id ∈ (x.queue side m).map orderId
    · obtain ⟨side, hid⟩ := hid
      obtain ⟨q, hq, rfl⟩ := mem_map.mp hid
      rw [h.queued side m q hq, Nat.zero_add]
      exact (hF.bounded q.orderId).trans (orderVolume_queues_le hx m q.orderId)
    · rw [hspared id (not_exists.mp hid), Nat.add_zero]
      exact h.bounded id
  · have hid' : id ∈ x.book side m' := by
      rw [← book_of_arrays harrays]
      cases side <;> exact hid
    rw [hfills, horders, hspared id fun side' => hx.apart side m' id hid' side' m]
    exact h.resting side m' id hid'
  · obtain ⟨hm, hq'⟩ := mem_queue_clearBatchState hq
    rw [queue_of_arrays harrays] at hq'
    have hother : ∀ side', q.orderId ∉ (x.queue side' m).map orderId := by
      intro side' hmem
      obtain ⟨q', hq'', heq⟩ := mem_map.mp hmem
      have hdesc := hx.queued side' m q' hq''
      rw [heq] at hdesc
      exact hm ((hx.queued side m' q hq').marketId.symm.trans hdesc.marketId)
    rw [hfills, h.queued side m' q hq', hspared _ hother]

theorem step (hx : x.WellFormed) (hsided : ∀ f ∈ x.fills, x.Sided f) (hstep : x.step l = some x') :
    x'.Spent := by
  have hunplaced := traded_unplaced hsided (le_refl x.nextOrderId)
  cases effect_of_step hx hstep with
  | swept ctx trader m side orderType offsetBps size _ _ y _ _ _ _ hF =>
    have hwritten := h.written hx hsided ctx trader m side orderType offsetBps size
    have hy : y.Spent := hwritten.swept hx.written hx.not_listed_written
      (by rw [written_self]; rfl) hunplaced hF
    apply hy.restOrClose
    have hbefore : traded x.nextOrderId
        (x.written ctx trader m side orderType offsetBps size).fills = 0 := hunplaced
    rw [hF.filledSize, written_self, hF.booked.fills, traded_append, hbefore]
    rfl
  | queued ctx trader m side orderType offsetBps size =>
    have hwritten := h.written hx hsided ctx trader m side orderType offsetBps size
    exact hwritten.addToBatch hunplaced
  | cancelled _ orderId =>
    exact h.shrink rfl (x.deactivate_filledSize orderId)
      (fun id => size_of_terms (x.deactivate_terms orderId id))
      (fun _ _ => List.Subset.refl _) (fun _ _ => List.Subset.refl _)
  | emptied =>
    refine h.shrink rfl (fun _ => rfl) (fun _ => rfl) (fun side _ => ?_)
      fun _ _ _ hq => (mem_queue_clearBatchState hq).2
    cases side <;> exact List.Subset.refl _
  | dealt _ _ _ _ _ _ _ _ hF =>
    exact (h.dealt hx hF).shrink rfl (fun _ => rfl) (fun _ => rfl)
      (fun _ _ => List.Subset.refl _) (fun _ _ => List.Subset.refl _)
  | custody =>
    exact h.shrink rfl (fun _ => rfl) (fun _ => rfl) (fun _ _ => List.Subset.refl _)
      (fun _ _ => List.Subset.refl _)
  | administered _ _ _ hadmin =>
    refine h.shrink hadmin.fills (fun id => by rw [hadmin.orders])
      (fun id => by rw [hadmin.orders]) (fun side m => ?_) (fun side m => ?_)
    · rw [book_of_arrays hadmin.arrays]
      exact List.Subset.refl _
    · rw [queue_of_arrays hadmin.arrays]
      exact List.Subset.refl _

end Spent

/-- What every reachable state of the exchange keeps. -/
structure Kept (x : Exchange) : Prop where
  wellFormed : x.WellFormed
  sided : ∀ f ∈ x.fills, x.Sided f
  spent : x.Spent

theorem Kept.step (h : x.Kept) (hstep : x.step l = some x') : x'.Kept where
  wellFormed := h.wellFormed.step hstep
  sided := allSided_of_step h.wellFormed h.sided hstep
  spent := h.spent.step h.wellFormed h.sided hstep

theorem kept_start (self owner : Address) (custody : VaultRun) :
    (start self owner custody).Kept where
  wellFormed := wellFormed_start self owner custody
  sided := fun _ hf => absurd hf not_mem_nil
  spent := by
    refine ⟨fun _ => Nat.zero_le _, fun side m id hid => ?_, fun side m q hq => ?_⟩
    · cases side <;> cases hid
    · cases side <;> cases hq

/-! ## What an order may still trade -/

/-- A later call can fill the order: it rests and is active, or a queue holds its entry, active
or not. -/
def Matchable (x : Exchange) (id : Nat) : Prop :=
  ((x.orders id).active ∧ id ∈ x.book (x.orders id).side (x.orders id).marketId) ∨
    id ∈ (x.queue (x.orders id).side (x.orders id).marketId).map orderId
deriving Decidable

variable {id : Nat}

section

variable (hx : x.WellFormed)

include hx

theorem matchable_of_book {side : Side} {m : MarketId} (hid : id ∈ x.book side m)
    (hactive : (x.orders id).active) : x.Matchable id := by
  have hrests := hx.resting side m id hid
  refine .inl ⟨hactive, ?_⟩
  rw [hrests.side, hrests.marketId]
  exact hid

theorem matchable_of_party (side : Side) {m : MarketId} {trader : Address}
    (h : (id, trader) ∈ (x.queue side m).map party) : x.Matchable id := by
  have hside := onSide_of_party hx h
  obtain ⟨_, hq, hparty⟩ := mem_map.mp h
  obtain ⟨rfl, -⟩ := Prod.mk.inj hparty
  right
  rw [hside.side, hside.marketId]
  exact mem_map_of_mem hq

theorem traded_of_not_matchable (h : x.step l = some x') (hid : id < x.nextOrderId)
    (hnot : ¬ x.Matchable id) : traded id (newFills x x') = 0 := by
  refine traded_of_spared fun f hf => not_or.mp fun htouch => hnot ?_
  obtain ⟨-, hcases⟩ := newFills_cases hx h
  rcases hcases with
    ⟨_, _, _, _, _, _, _, _, _, _, -, -, hF, -⟩ |
    ⟨_, _, _, _, _, -, -, hF, -⟩ | ⟨hnone, -⟩
  · obtain ⟨_, hi, htaken⟩ := hF.taken f hf
    cases (htaken.between.touches id).mp htouch with
    | inl heq => exact absurd heq hid.ne
    | inr heq =>
      subst heq
      have hactive := htaken.active
      rw [written_of_ne hid.ne] at hactive
      exact matchable_of_book hx hi hactive
  · cases htouch with
    | inl heq =>
      subst heq
      exact matchable_of_party hx .buy (hF.buyers f hf)
    | inr heq =>
      subst heq
      exact matchable_of_party hx .sell (hF.sellers f hf)
  · rw [hnone] at hf
    cases hf

theorem matchable_of_step (h : x.step l = some x') (hid : id < x.nextOrderId)
    (hafter : x'.Matchable id) : x.Matchable id := by
  have hterms := terms_of_step hx h hid
  unfold Matchable at hafter
  rw [side_of_terms hterms, marketId_of_terms hterms] at hafter
  rcases hafter with ⟨hactive, hbook⟩ | hqueue
  · rcases mem_book_of_step hx h hbook with hbook | ⟨_, _, _, _, -, heq, -⟩
    · exact .inl ⟨active_of_step hx h hid hactive, hbook⟩
    · exact absurd heq hid.ne
  obtain ⟨_, hq, rfl⟩ := mem_map.mp hqueue
  rcases mem_queue_of_step hx h hq with hq | ⟨_, _, -, -, heq⟩
  · exact .inr (mem_map_of_mem hq)
  · exact absurd heq hid.ne

end

/-- What is left of an order that can still be filled. -/
def openSize (x : Exchange) (id : Nat) : Nat :=
  if x.Matchable id then (x.orders id).size.val - traded id x.fills else 0

theorem traded_add_openSize_le (h : x.Spent) (id : Nat) :
    traded id x.fills + x.openSize id ≤ (x.orders id).size.val := by
  have hbounded := h.bounded id
  unfold openSize
  split <;> omega

theorem traded_le_of_step (hx : x.WellFormed) (h : x.step l = some x') (id : Nat) :
    traded id x.fills ≤ traded id x'.fills := by
  rw [(newFills_cases hx h).1, traded_append]
  exact Nat.le_add_right _ _

theorem reach_le_of_step (hkept : x.Kept) (hkept' : x'.Kept) (h : x.step l = some x')
    (hid : id < x.nextOrderId) :
    traded id x'.fills + x'.openSize id ≤ traded id x.fills + x.openSize id := by
  have hx := hkept.wellFormed
  by_cases hmatchable : x.Matchable id
  · -- a matchable order may go up to its size, before and after
    have hsize := congrArg Uint.val (size_of_terms (terms_of_step hx h hid))
    have hafter := traded_add_openSize_le hkept'.spent id
    unfold openSize at hafter ⊢
    rw [if_pos hmatchable]
    omega
  · have hafter : ¬ x'.Matchable id := fun hafter => hmatchable (matchable_of_step hx h hid hafter)
    unfold openSize
    rw [if_neg hmatchable, if_neg hafter, (newFills_cases hx h).1, traded_append,
      traded_of_not_matchable hx h hid hmatchable, Nat.add_zero]

/-! ## The orders of a trader on one side of a market -/

/-- The orders of a trader on a side of a market. -/
def ordersOf (x : Exchange) (trader : Address) (m : MarketId) (side : Side) : Finset Nat :=
  (Finset.range x.nextOrderId).filter fun id =>
    (x.orders id).trader = trader ∧ (x.orders id).marketId = m ∧ (x.orders id).side = side

theorem mem_ordersOf {trader : Address} {m : MarketId} {side : Side} :
    id ∈ x.ordersOf trader m side ↔ x.OnSide side m id trader := by
  unfold ordersOf
  rw [Finset.mem_filter, Finset.mem_range]
  constructor
  · rintro ⟨hid, htrader, hm, hside⟩
    exact ⟨hid, hm, hside, htrader⟩
  · rintro ⟨hid, hm, hside, htrader⟩
    exact ⟨hid, htrader, hm, hside⟩

section

variable (hx : x.WellFormed) (h : x.step l = some x')

include hx h

theorem onSide_of_step_iff {side : Side} {m : MarketId} {trader : Address}
    (hid : id < x.nextOrderId) : x'.OnSide side m id trader ↔ x.OnSide side m id trader := by
  refine ⟨fun hafter => ?_, fun hbefore => hbefore.step hx h⟩
  have hterms := (terms_of_step hx h hid).symm
  exact ⟨hid, (marketId_of_terms hterms).trans hafter.marketId,
    (side_of_terms hterms).trans hafter.side,
    (trader_of_terms hterms).trans hafter.trader⟩

theorem mem_ordersOf_of_step {trader : Address} {m : MarketId} {side : Side} :
    id ∈ x'.ordersOf trader m side ↔ id ∈ x.ordersOf trader m side ∨
      (id = x.nextOrderId ∧ x'.OnSide side m x.nextOrderId trader) := by
  rw [mem_ordersOf, mem_ordersOf]
  constructor
  · intro hid
    by_cases hlt : id < x.nextOrderId
    · exact .inl ((onSide_of_step_iff hx h hlt).mp hid)
    have heq : id = x.nextOrderId := by
      have hplaced := hid.placed
      rcases nextOrderId_of_step hx h with ⟨_, _, _, _, _, _, _, -, _, -⟩ | ⟨-, _⟩
      · omega
      · omega
    exact .inr ⟨heq, heq ▸ hid⟩
  · rintro (hid | ⟨rfl, hnew⟩)
    · exact (onSide_of_step_iff hx h hid.placed).mpr hid
    · exact hnew

theorem onSide_next (trader : Address) (m : MarketId) (side : Side) :
    (x'.OnSide side m x.nextOrderId trader →
      (x'.orders x.nextOrderId).size.val = l.placed trader m side) ∧
    (¬ x'.OnSide side m x.nextOrderId trader → l.placed trader m side = 0) := by
  rcases nextOrderId_of_step hx h with
    ⟨ctx, trader', m', side', orderType, offsetBps, size, rfl, _, hterms⟩ | ⟨hl, _⟩
  · constructor
    · intro hside
      have hsame : trader' = trader ∧ m' = m ∧ side' = side :=
        ⟨(trader_of_terms hterms).symm.trans hside.trader,
          (marketId_of_terms hterms).symm.trans hside.marketId,
          (side_of_terms hterms).symm.trans hside.side⟩
      rw [Label.placed, if_pos hsame, size_of_terms hterms]
      rfl
    · intro hside
      rw [Label.placed, if_neg]
      rintro ⟨rfl, rfl, rfl⟩
      exact hside ⟨by omega, marketId_of_terms hterms, side_of_terms hterms, trader_of_terms hterms⟩
  · constructor
    · intro hside
      have hplaced := hside.placed
      omega
    intro _
    cases l with
    | placeOrder ctx trader' m' side' orderType offsetBps size =>
      exact absurd rfl (hl ctx trader' m' side' orderType offsetBps size)
    | cancelOrder | clearBatch | createMarket | setMarketMode | setRouter | pause | unpause
    | custody => rfl

theorem ordersOf_of_step (trader : Address) (m : MarketId) (side : Side) :
    (x'.ordersOf trader m side = x.ordersOf trader m side ∧ l.placed trader m side = 0) ∨
    (x'.ordersOf trader m side = insert x.nextOrderId (x.ordersOf trader m side) ∧
      (x'.orders x.nextOrderId).size.val = l.placed trader m side) := by
  obtain ⟨hsize, hnone⟩ := onSide_next hx h trader m side
  by_cases hnew : x'.OnSide side m x.nextOrderId trader
  · refine .inr ⟨?_, hsize hnew⟩
    ext id
    rw [mem_ordersOf_of_step hx h, Finset.mem_insert, and_iff_left hnew, or_comm]
  · refine .inl ⟨?_, hnone hnew⟩
    ext id
    rw [mem_ordersOf_of_step hx h, or_iff_left fun hid => hnew hid.2]

end

/-- What the orders on one side have traded. -/
def tradedOn (x : Exchange) (trader : Address) (m : MarketId) (side : Side) : Nat :=
  ∑ id ∈ x.ordersOf trader m side, traded id x.fills

/-- What they may still trade. -/
def openOn (x : Exchange) (trader : Address) (m : MarketId) (side : Side) : Nat :=
  ∑ id ∈ x.ordersOf trader m side, x.openSize id

/-- What was submitted in all. -/
def submittedOn (x : Exchange) (trader : Address) (m : MarketId) (side : Side) : Nat :=
  ∑ id ∈ x.ordersOf trader m side, (x.orders id).size.val

theorem sum_ordersOf_of_step (hx : x.WellFormed) (h : x.step l = some x') (trader : Address)
    (m : MarketId) (side : Side) (g : Nat → Nat) :
    ∃ n, ∑ id ∈ x'.ordersOf trader m side, g id = ∑ id ∈ x.ordersOf trader m side, g id + n ∧
      ((n = 0 ∧ l.placed trader m side = 0) ∨
        (n = g x.nextOrderId ∧ (x'.orders x.nextOrderId).size.val = l.placed trader m side)) := by
  have habove : x.nextOrderId ∉ x.ordersOf trader m side :=
    fun hmem => lt_irrefl _ (mem_ordersOf.mp hmem).placed
  rcases ordersOf_of_step hx h trader m side with ⟨hids, hnone⟩ | ⟨hids, hsize⟩
  · exact ⟨0, by rw [hids, Nat.add_zero], .inl ⟨rfl, hnone⟩⟩
  · refine ⟨g x.nextOrderId, ?_, .inr ⟨rfl, hsize⟩⟩
    rw [hids, Finset.sum_insert habove, Nat.add_comm]

variable (trader : Address) (m : MarketId) (side : Side)

theorem tradedOn_le_of_step (hx : x.WellFormed) (h : x.step l = some x') :
    x.tradedOn trader m side ≤ x'.tradedOn trader m side := by
  obtain ⟨_, _, -⟩ := sum_ordersOf_of_step hx h trader m side fun id => traded id x'.fills
  have hle : x.tradedOn trader m side ≤
      ∑ id ∈ x.ordersOf trader m side, traded id x'.fills :=
    Finset.sum_le_sum fun id _ => traded_le_of_step hx h id
  unfold tradedOn at hle ⊢
  omega

theorem reach_of_step (hx : x.Kept) (hx' : x'.Kept) (h : x.step l = some x') :
    x'.tradedOn trader m side + x'.openOn trader m side ≤
      x.tradedOn trader m side + x.openOn trader m side + l.placed trader m side := by
  obtain ⟨_, _, _⟩ := sum_ordersOf_of_step hx.wellFormed h trader m side fun id =>
    traded id x'.fills + x'.openSize id
  have hle : ∑ id ∈ x.ordersOf trader m side, (traded id x'.fills + x'.openSize id) ≤
      ∑ id ∈ x.ordersOf trader m side, (traded id x.fills + x.openSize id) :=
    Finset.sum_le_sum fun id hid => reach_le_of_step hx hx' h (mem_ordersOf.mp hid).placed
  have hnew := traded_add_openSize_le hx'.spent x.nextOrderId
  unfold tradedOn openOn
  rw [← Finset.sum_add_distrib, ← Finset.sum_add_distrib]
  omega

theorem submittedOn_of_step (hx : x.WellFormed) (h : x.step l = some x') :
    x'.submittedOn trader m side = x.submittedOn trader m side + l.placed trader m side := by
  obtain ⟨_, _, _⟩ := sum_ordersOf_of_step hx h trader m side fun id => (x'.orders id).size.val
  have hsame : ∑ id ∈ x.ordersOf trader m side, (x'.orders id).size.val =
      x.submittedOn trader m side := by
    refine Finset.sum_congr rfl fun id hid => ?_
    rw [size_of_terms (terms_of_step hx h (mem_ordersOf.mp hid).placed)]
  unfold submittedOn at hsame ⊢
  omega

theorem reach_le_submittedOn (h : x.Spent) :
    x.tradedOn trader m side + x.openOn trader m side ≤ x.submittedOn trader m side := by
  unfold tradedOn openOn submittedOn
  rw [← Finset.sum_add_distrib]
  exact Finset.sum_le_sum fun id _ => traded_add_openSize_le h id

/-! ## The net position -/

/-- What a trader bought in a market less what was sold, over all fills. -/
def netPosition (x : Exchange) (trader : Address) (m : MarketId) : Int :=
  (x.fills.map fun f =>
    if f.marketId = m then
      (if f.buyer = trader then (f.size.val : Int) else 0) -
        (if f.seller = trader then (f.size.val : Int) else 0)
    else 0).sum

theorem netPosition_eq (hsided : ∀ f ∈ x.fills, x.Sided f) :
    x.netPosition trader m = x.tradedOn trader m .buy - x.tradedOn trader m .sell := by
  -- weigh the trader's orders in the market with their sign
  have hsum := sum_traded
    (fun id => if (x.orders id).trader = trader ∧ (x.orders id).marketId = m then
      (x.orders id).side.sign else 0)
    x.nextOrderId x.fills fun f hf => (hsided f hf).ids
  have hfills : x.netPosition trader m = (x.fills.map fun f =>
      ((if (x.orders f.buyOrderId).trader = trader ∧ (x.orders f.buyOrderId).marketId = m then
        (x.orders f.buyOrderId).side.sign else 0) +
      (if (x.orders f.sellOrderId).trader = trader ∧ (x.orders f.sellOrderId).marketId = m then
        (x.orders f.sellOrderId).side.sign else 0)) * (f.size.val : Int)).sum := by
    refine congrArg List.sum (map_congr_left fun f hf => ?_)
    have hf' := hsided f hf
    rw [hf'.buy.marketId, hf'.sell.marketId, hf'.buy.side, hf'.sell.side, hf'.buy.trader,
      hf'.sell.trader]
    by_cases hm : f.marketId = m
    · by_cases hbuyer : f.buyer = trader <;> by_cases hseller : f.seller = trader <;>
        simp [hm, hbuyer, hseller, Side.sign]
    · simp [hm]
  rw [hfills, ← hsum]
  unfold tradedOn ordersOf
  rw [Finset.sum_filter, Finset.sum_filter]
  push_cast
  rw [← Finset.sum_sub_distrib]
  refine Finset.sum_congr rfl fun id _ => ?_
  by_cases hid : (x.orders id).trader = trader ∧ (x.orders id).marketId = m
  · cases hside : (x.orders id).side <;> simp [hid.1, hid.2, Side.sign]
  rw [if_neg hid, if_neg fun hboth => hid ⟨hboth.1, hboth.2.1⟩,
    if_neg fun hboth => hid ⟨hboth.1, hboth.2.1⟩]
  ring

theorem sign_mul_netPosition (hsided : ∀ f ∈ x.fills, x.Sided f) :
    side.sign * x.netPosition trader m =
      x.tradedOn trader m side - x.tradedOn trader m side.opposite := by
  rw [netPosition_eq trader m hsided]
  cases side with
  | buy | sell =>
    rw [Side.sign, Side.opposite]
    ring

theorem worstCase_of_step (hx : x.Kept) (h : x.step l = some x') :
    side.sign * x'.netPosition trader m + x'.openOn trader m side ≤
      side.sign * x.netPosition trader m + x.openOn trader m side + l.placed trader m side := by
  have hx' := hx.step h
  have hreach := reach_of_step trader m side hx hx' h
  have htraded := tradedOn_le_of_step trader m side.opposite hx.wellFormed h
  rw [sign_mul_netPosition trader m side hx.sided, sign_mul_netPosition trader m side hx'.sided]
  omega

end Exchange

end HyperPax.PaxSpot
