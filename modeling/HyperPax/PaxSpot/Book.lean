/-
  PaxSpot/Book.lean --- the arrays and the orders they speak of.

  A resting book lists LIMIT orders of its own market and side; a queue entry repeats the
  terms of the order it was made from; no order is listed twice (`WellFormed`).  The
  source keeps none of this in one place: it follows from every order being
  written once and pushed at most once, and holds in every state reached.
-/
import HyperPax.Lib.History
import HyperPax.PaxSpot.Steps
import HyperPax.PaxSpot.Walk

set_option autoImplicit false

namespace HyperPax.PaxSpot

open Lib PaxSpot.Order List

/-- The side an order is matched against. -/
def Side.opposite : Side → Side
  | .buy => .sell
  | .sell => .buy

namespace Exchange

theorem opposingIds_eq (x : Exchange) (side : Side) (m : MarketId) :
    x.opposingIds side m = x.book side.opposite m := by
  cases side <;> rfl

/-- Some book lists the order, or some queue holds an entry of it. -/
def Listed (x : Exchange) (id : Nat) : Prop :=
  (∃ side m, id ∈ x.book side m) ∨ ∃ side m, id ∈ (x.queue side m).map Queued.orderId

/-- An entry repeats the terms of its order. -/
structure Describes (side : Side) (m : MarketId) (q : Queued) (o : Order) : Prop where
  marketId : o.marketId = m
  side : o.side = side
  trader : o.trader = q.trader
  offsetBps : o.offsetBps = q.entry.offsetBps
  size : o.size = q.entry.size

variable {side : Side} {m : MarketId} {o o' : Order}

theorem Describes.congr {q : Queued} (h : Describes side m q o) (hterms : o'.terms = o.terms) :
    Describes side m q o' where
  marketId := (marketId_of_terms hterms).trans h.marketId
  side := (side_of_terms hterms).trans h.side
  trader := (trader_of_terms hterms).trans h.trader
  offsetBps := (offsetBps_of_terms hterms).trans h.offsetBps
  size := (size_of_terms hterms).trans h.size

/-- The order is a LIMIT order of the market and side whose book lists it. -/
structure Rests (side : Side) (m : MarketId) (o : Order) : Prop where
  marketId : o.marketId = m
  side : o.side = side
  orderType : o.orderType = .limit

theorem Rests.congr (h : Rests side m o) (hterms : o'.terms = o.terms) : Rests side m o' where
  marketId := (marketId_of_terms hterms).trans h.marketId
  side := (side_of_terms hterms).trans h.side
  orderType := (orderType_of_terms hterms).trans h.orderType

/-- Orders, books and queues fit together, and each order has one place. -/
structure WellFormed (x : Exchange) : Prop where
  unwritten : ∀ id, x.nextOrderId ≤ id → x.orders id = .unwritten
  placed : ∀ id, x.Listed id → id < x.nextOrderId
  resting : ∀ side m, ∀ id ∈ x.book side m, Rests side m (x.orders id)
  queued : ∀ side m, ∀ q ∈ x.queue side m, Describes side m q (x.orders q.orderId)
  nodupBook : ∀ side m, (x.book side m).Nodup
  nodupQueue : ∀ side m, ((x.queue side m).map Queued.orderId).Nodup
  apart : ∀ side m, ∀ id ∈ x.book side m, ∀ side' m', id ∉ (x.queue side' m').map Queued.orderId

namespace WellFormed

variable {x x' : Exchange}

theorem not_listed (h : x.WellFormed) {id : Nat} (hid : x.nextOrderId ≤ id) : ¬ x.Listed id :=
  fun hlisted => absurd (h.placed id hlisted) (not_lt.mpr hid)

theorem shrink (h : x.WellFormed) (hnext : x.nextOrderId ≤ x'.nextOrderId)
    (hunwritten : ∀ id, x'.nextOrderId ≤ id → x'.orders id = .unwritten)
    (hterms : ∀ id, id < x.nextOrderId → (x'.orders id).terms = (x.orders id).terms)
    (hbook : ∀ side m, (x'.book side m).Sublist (x.book side m))
    (hqueue : ∀ side m, (x'.queue side m).Sublist (x.queue side m)) : x'.WellFormed := by
  have hlisted : ∀ id, x'.Listed id → x.Listed id := by
    rintro id (⟨side, m, hid⟩ | ⟨side, m, hid⟩)
    · exact .inl ⟨side, m, (hbook side m).subset hid⟩
    · exact .inr ⟨side, m, ((hqueue side m).map _).subset hid⟩
  refine ⟨hunwritten, fun id hid => (h.placed id (hlisted id hid)).trans_le hnext, ?_, ?_, ?_, ?_,
    ?_⟩
  · intro side m id hid
    have hid' := (hbook side m).subset hid
    exact (h.resting side m id hid').congr (hterms id (h.placed id (.inl ⟨side, m, hid'⟩)))
  · intro side m q hq
    have hq' := (hqueue side m).subset hq
    have hplaced := h.placed q.orderId (.inr ⟨side, m, mem_map_of_mem hq'⟩)
    exact (h.queued side m q hq').congr (hterms q.orderId hplaced)
  · intro side m
    exact (h.nodupBook side m).sublist (hbook side m)
  · intro side m
    exact (h.nodupQueue side m).sublist ((hqueue side m).map _)
  · intro side m id hid side' m' hq
    exact h.apart side m id ((hbook side m).subset hid) side' m'
      (((hqueue side' m').map _).subset hq)

theorem congr (h : x.WellFormed) (harrays : x'.arrays = x.arrays)
    (hunwritten : ∀ id, x.nextOrderId ≤ id → x'.orders id = x.orders id)
    (hterms : ∀ id, (x'.orders id).terms = (x.orders id).terms) : x'.WellFormed := by
  have hnext := nextOrderId_of_arrays harrays
  refine h.shrink hnext.ge ?_ (fun id _ => hterms id) ?_ ?_
  · intro id hid
    rw [hnext] at hid
    rw [hunwritten id hid, h.unwritten id hid]
  · intro side m
    rw [book_of_arrays harrays]
  · intro _ _
    rw [queue_of_arrays harrays]

end WellFormed

/-! ## Pushing an order -/

/-- Nothing is placed, traded, cancelled or administered from one state to the other. -/
structure Quiet (x x' : Exchange) : Prop where
  nextOrderId : x'.nextOrderId = x.nextOrderId
  fills : x'.fills = x.fills
  cancelled : x'.cancelled = x.cancelled
  custody : x'.custody = x.custody
  marketStates : x'.marketStates = x.marketStates

section

variable (x : Exchange) (side : Side) (m : MarketId) (id : Nat) (trader : Address)
  (offsetBps : Sint 16) (size : Uint 128) (side' : Side) (m' : MarketId)

theorem book_rest : (x.rest side m id).book side' m' =
      if side' = side ∧ m' = m then x.book side' m' ++ [id] else x.book side' m' := by
  by_cases hm : m' = m
  · subst hm
    cases side <;> cases side' <;> simp [rest, book]
  · cases side <;> cases side' <;> simp [rest, book, hm]

theorem queue_rest : (x.rest side m id).queue side' m' = x.queue side' m' := by
  cases side <;> cases side' <;> rfl

theorem orders_rest : (x.rest side m id).orders = x.orders := by cases side <;> rfl

theorem quiet_rest : Quiet x (x.rest side m id) := by cases side <;> exact ⟨rfl, rfl, rfl, rfl, rfl⟩

theorem queue_addToBatch : (x.addToBatch id trader m side offsetBps size).queue side' m' =
      if side' = side ∧ m' = m then x.queue side' m' ++ [⟨⟨offsetBps, size⟩, trader, id⟩]
      else x.queue side' m' := by
  by_cases hm : m' = m
  · subst hm
    cases side <;> cases side' <;> simp [addToBatch, queue]
  · cases side <;> cases side' <;> simp [addToBatch, queue, hm]

theorem book_addToBatch : (x.addToBatch id trader m side offsetBps size).book side' m' =
    x.book side' m' := by
  cases side <;> cases side' <;> rfl

theorem orders_addToBatch : (x.addToBatch id trader m side offsetBps size).orders = x.orders := by
  cases side <;> rfl

theorem quiet_addToBatch : Quiet x (x.addToBatch id trader m side offsetBps size) := by
  cases side <;> exact ⟨rfl, rfl, rfl, rfl, rfl⟩

end

section

variable {x x' : Exchange} {side : Side} {m : MarketId} {id : Nat}

variable (h : x.WellFormed) (hid : id < x.nextOrderId) (hnew : ¬ x.Listed id)

include h hid hnew

/-- An order that is listed nowhere is pushed to a book or to a queue. -/
theorem WellFormed.push (hquiet : Quiet x x') (horders : x'.orders = x.orders)
    (hbook : ∀ side m, Grown (fun i => i = id ∧ Rests side m (x.orders i)) (x.book side m)
      (x'.book side m))
    (hqueue : ∀ side m, Grown (fun q => q.orderId = id ∧ Describes side m q (x.orders q.orderId))
      (x.queue side m) (x'.queue side m)) (hone : (∀ side m, x'.book side m = x.book side m) ∨
      ∀ side m, x'.queue side m = x.queue side m) : x'.WellFormed := by
  have hlisted : ∀ i, x'.Listed i → i = id ∨ x.Listed i := by
    rintro i (⟨side, m, hi⟩ | ⟨side, m, hi⟩)
    · cases (hbook side m).mem hi with
      | inl hold => exact .inr (.inl ⟨side, m, hold⟩)
      | inr hpushed => exact .inl hpushed.1
    obtain ⟨q, hq, rfl⟩ := mem_map.mp hi
    cases (hqueue side m).mem hq with
    | inl hold => exact .inr (.inr ⟨side, m, mem_map_of_mem hold⟩)
    | inr hpushed => exact .inl hpushed.1
  refine ⟨?_, ?_, ?_, ?_, ?_, ?_, ?_⟩
  · intro i hi
    rw [hquiet.nextOrderId] at hi
    rw [horders, h.unwritten i hi]
  · intro i hi
    rw [hquiet.nextOrderId]
    cases hlisted i hi with
    | inl hsame => exact hsame ▸ hid
    | inr hold => exact h.placed i hold
  · intro side m i hi
    rw [horders]
    cases (hbook side m).mem hi with
    | inl hold => exact h.resting side m i hold
    | inr hpushed => exact hpushed.2
  · intro side m q hq
    rw [horders]
    cases (hqueue side m).mem hq with
    | inl hold => exact h.queued side m q hold
    | inr hpushed => exact hpushed.2
  · intro side m
    have hnodup := (hbook side m).nodup_map (f := fun i => i) (by
      rw [map_id']
      exact h.nodupBook side m) (by
      rintro i ⟨rfl, -⟩ hi
      rw [map_id'] at hi
      exact hnew (.inl ⟨side, m, hi⟩))
    rwa [map_id'] at hnodup
  · intro side m
    refine (hqueue side m).nodup_map (h.nodupQueue side m) ?_
    rintro q ⟨rfl, -⟩ hq
    exact hnew (.inr ⟨side, m, hq⟩)
  · -- only one of the two arrays has changed, and the other does not list the order
    intro side m i hi side' m' hq
    cases hone with
    | inl hsame =>
      rw [hsame] at hi
      obtain ⟨q, hmem, rfl⟩ := mem_map.mp hq
      cases (hqueue side' m').mem hmem with
      | inl hold => exact h.apart side m q.orderId hi side' m' (mem_map_of_mem hold)
      | inr hpushed => exact hnew (.inl ⟨side, m, hpushed.1 ▸ hi⟩)
    | inr hsame =>
      rw [hsame] at hq
      cases (hbook side m).mem hi with
      | inl hold => exact h.apart side m i hold side' m' hq
      | inr hpushed => exact hnew (.inr ⟨side', m', hpushed.1 ▸ hq⟩)

theorem WellFormed.rest (hrests : Rests side m (x.orders id)) : (x.rest side m id).WellFormed := by
  refine h.push hid hnew (x.quiet_rest side m id) (x.orders_rest side m id) ?_
    (fun side' m' => .inl (x.queue_rest side m id side' m'))
    (.inr (x.queue_rest side m id))
  intro _ _
  rw [book_rest]
  split
  · rename_i hsame
    obtain ⟨rfl, rfl⟩ := hsame
    exact .inr ⟨id, ⟨rfl, hrests⟩, rfl⟩
  · exact .inl rfl

theorem WellFormed.addToBatch {trader : Address} {offsetBps : Sint 16} {size : Uint 128}
    (hdesc : Describes side m ⟨⟨offsetBps, size⟩, trader, id⟩ (x.orders id)) :
    (x.addToBatch id trader m side offsetBps size).WellFormed := by
  refine h.push hid hnew (x.quiet_addToBatch side m id trader offsetBps size)
    (x.orders_addToBatch side m id trader offsetBps size)
    (fun side' m' => .inl (x.book_addToBatch side m id trader offsetBps size side' m')) ?_
    (.inl (x.book_addToBatch side m id trader offsetBps size))
  intro _ _
  rw [queue_addToBatch]
  split
  · rename_i hsame
    obtain ⟨rfl, rfl⟩ := hsame
    exact .inr ⟨_, ⟨rfl, hdesc⟩, rfl⟩
  · exact .inl rfl

end

/-! ## Placing an order -/

section

variable {x y : Exchange} {ctx : Ctx} {trader : Address} {m : MarketId} {side : Side}
  {orderType : OrderType} {offsetBps : Sint 16} {size : Uint 128} {id i : Nat}

theorem written_self : (x.written ctx trader m side orderType offsetBps size).orders x.nextOrderId =
    newOrder ctx x.nextOrderId trader m side orderType offsetBps size :=
  Function.update_self _ _ _

theorem written_of_ne (h : id ≠ x.nextOrderId) :
    (x.written ctx trader m side orderType offsetBps size).orders id = x.orders id :=
  Function.update_of_ne h _ _

theorem WellFormed.written (h : x.WellFormed) :
    (x.written ctx trader m side orderType offsetBps size).WellFormed := by
  refine h.shrink (Nat.le_succ _) ?_ ?_ (fun side m => ?_) (fun side m => ?_)
  · intro id hid
    have hlt : x.nextOrderId < id := hid
    rw [written_of_ne hlt.ne', h.unwritten id hlt.le]
  · intro _ hid
    rw [written_of_ne hid.ne]
  · cases side <;> exact List.Sublist.refl _
  · cases side <;> exact List.Sublist.refl _

theorem WellFormed.not_listed_written (h : x.WellFormed) :
    ¬ (x.written ctx trader m side orderType offsetBps size).Listed x.nextOrderId := by
  rintro (⟨side, m, hid⟩ | ⟨side, m, hid⟩)
  · refine h.not_listed le_rfl (.inl ⟨side, m, ?_⟩)
    cases side <;> exact hid
  · refine h.not_listed le_rfl (.inr ⟨side, m, ?_⟩)
    cases side <;> exact hid

/-- The sweep of the opposing book for a new order. -/
abbrev SweptFor (ctx : Ctx) (x : Exchange) (trader : Address) (m : MarketId) (side : Side)
    (orderType : OrderType) (offsetBps : Sint 16) (size : Uint 128) (oraclePrice : Sint 256)
    (F : List Fill) (y : Exchange) (left : Uint 128) : Prop :=
  Swept x.nextOrderId (x.book side.opposite m)
    (incomingAbsPrice (newOrder ctx x.nextOrderId trader m side orderType offsetBps size)
      oraclePrice) oraclePrice (x.marketStates m)
    (x.written ctx trader m side orderType offsetBps size) size F y left

theorem Walked.swept {oracle : Sint 256} {left : Uint 128} (hx : x.WellFormed)
    (h : Walked ctx x trader m side orderType offsetBps size oracle y left) :
    ∃ F, SweptFor ctx x trader m side orderType offsetBps size oracle F y left := by
  have hwalk := h.walk
  rw [opposingIds_eq] at hwalk
  refine walk_swept hwalk ?_
  intro hid
  exact hx.not_listed le_rfl (.inl ⟨_, _, hid⟩)

theorem WellFormed.restOrClose (h : y.WellFormed) (hid : id < y.nextOrderId)
    (hnew : ¬ y.Listed id) : (y.restOrClose id).WellFormed := by
  rcases restOrClose_cases y id with ⟨-, heq⟩ | ⟨-, htype, heq⟩ | ⟨-, -, heq⟩
  · rw [heq]
    refine h.congr rfl ?_ (y.deactivate_terms id)
    intro _ hi
    exact y.deactivate_of_ne id (hid.trans_le hi).ne'
  · rw [heq]
    exact h.rest hid hnew ⟨rfl, rfl, htype⟩
  · rw [heq]
    exact h

theorem quiet_restOrClose (y : Exchange) (id : Nat) : Quiet y (y.restOrClose id) := by
  rcases restOrClose_cases y id with ⟨-, heq⟩ | ⟨-, -, heq⟩ | ⟨-, -, heq⟩
  · rw [heq]
    exact ⟨rfl, rfl, rfl, rfl, rfl⟩
  · rw [heq]
    exact y.quiet_rest _ _ id
  · rw [heq]
    exact ⟨rfl, rfl, rfl, rfl, rfl⟩

theorem restOrClose_terms (y : Exchange) (id i : Nat) :
    ((y.restOrClose id).orders i).terms = (y.orders i).terms := by
  rcases restOrClose_cases y id with ⟨-, heq⟩ | ⟨-, -, heq⟩ | ⟨-, -, heq⟩
  · rw [heq]
    exact y.deactivate_terms id i
  · rw [heq, orders_rest]
  · rw [heq]

theorem restOrClose_active (h : ((y.restOrClose id).orders i).active) : (y.orders i).active := by
  rcases restOrClose_cases y id with ⟨-, heq⟩ | ⟨-, -, heq⟩ | ⟨-, -, heq⟩
  · rw [heq] at h
    exact ((y.deactivate_active id i).mp h).2
  · rwa [heq, orders_rest] at h
  · rwa [heq] at h

theorem restOrClose_filledSize (y : Exchange) (id i : Nat) :
    ((y.restOrClose id).orders i).filledSize = (y.orders i).filledSize := by
  rcases restOrClose_cases y id with ⟨-, heq⟩ | ⟨-, -, heq⟩ | ⟨-, -, heq⟩
  · rw [heq]
    exact y.deactivate_filledSize id i
  · rw [heq, orders_rest]
  · rw [heq]

theorem mem_book_restOrClose {side' : Side} {m' : MarketId}
    (h : i ∈ (y.restOrClose id).book side' m') :
    i ∈ y.book side' m' ∨ (i = id ∧ Rests side' m' (y.orders id) ∧
      (y.orders id).filledSize.val < (y.orders id).size.val) := by
  rcases restOrClose_cases y id with ⟨-, heq⟩ | ⟨hopen, htype, heq⟩ | ⟨-, -, heq⟩
  · rw [heq] at h
    exact .inl h
  · rw [heq, book_rest] at h
    split at h
    · rename_i hsame
      rcases mem_append.mp h with h | h
      · exact .inl h
      · exact .inr ⟨mem_singleton.mp h, ⟨hsame.2.symm, hsame.1.symm, htype⟩, hopen⟩
    · exact .inl h
  · rw [heq] at h
    exact .inl h

theorem queue_restOrClose (y : Exchange) (id : Nat) (side' : Side) (m' : MarketId) :
    (y.restOrClose id).queue side' m' = y.queue side' m' := by
  rcases restOrClose_cases y id with ⟨-, heq⟩ | ⟨-, -, heq⟩ | ⟨-, -, heq⟩
  · rw [heq]
    rfl
  · rw [heq, queue_rest]
  · rw [heq]

end

/-! ## Runs -/

variable {x x' y : Exchange}

theorem listed_of_arrays (h : y.arrays = x.arrays) (id : Nat) : y.Listed id ↔ x.Listed id := by
  unfold Listed
  simp only [book_of_arrays h, queue_of_arrays h]

variable {m : MarketId} {side : Side} {q : Queued} {l : Label} {id : Nat}

theorem SweptFor.wellFormed {ctx : Ctx} {trader : Address} {orderType : OrderType}
    {offsetBps : Sint 16} {size : Uint 128} {oracle : Sint 256} {F : List Fill}
    {left : Uint 128} (hx : x.WellFormed)
    (hF : SweptFor ctx x trader m side orderType offsetBps size oracle F y left) :
    y.WellFormed ∧ x.nextOrderId < y.nextOrderId ∧ ¬ y.Listed x.nextOrderId := by
  have harrays := hF.booked.arrays
  have hnext : y.nextOrderId = x.nextOrderId + 1 := nextOrderId_of_arrays harrays
  refine ⟨hx.written.congr harrays ?_ hF.terms, by omega, ?_⟩
  · intro id hid
    have hlt : x.nextOrderId < id := hid
    refine hF.others id hlt.ne' fun hbook => ?_
    exact hx.not_listed hlt.le (.inl ⟨_, _, hbook⟩)
  · rw [listed_of_arrays harrays]
    exact hx.not_listed_written

theorem WellFormed.clearBatchState (h : x.WellFormed) (m : MarketId) :
    (x.clearBatchState m).WellFormed := by
  refine h.shrink le_rfl h.unwritten (fun _ _ => rfl) (fun side m' => ?_) (fun side m' => ?_)
  · cases side <;> exact List.Sublist.refl _
  by_cases hm : m' = m
  · subst hm
    cases side <;> simp [Exchange.clearBatchState, queue]
  · cases side <;> simp [Exchange.clearBatchState, queue, hm]

theorem mem_queue_clearBatchState {m' : MarketId} (h : q ∈ (x.clearBatchState m).queue side m') :
    m' ≠ m ∧ q ∈ x.queue side m' := by
  have hm : m' ≠ m := by
    rintro rfl
    cases side <;> simp [Exchange.clearBatchState, queue] at h
  refine ⟨hm, ?_⟩
  cases side <;> simpa [Exchange.clearBatchState, queue, hm] using h

/-- What one step of a run did.  Every invariant of the exchange is proved by cases on it. -/
inductive Effect (x : Exchange) : Label → Exchange → Prop where
  | swept (ctx : Ctx) (trader : Address) (m : MarketId) (side : Side) (orderType : OrderType)
      (offsetBps : Sint 16) (size : Uint 128) (oraclePrice : Sint 256) (F : List Fill)
      (y : Exchange) (left : Uint 128) (accepted : Accepted x m orderType offsetBps size)
      (mode : (x.marketStates m).mode = .continuous) (price : ctx.price m = some oraclePrice)
      (swept : SweptFor ctx x trader m side orderType offsetBps size oraclePrice F y left) :
      Effect x (.placeOrder ctx trader m side orderType offsetBps size)
        (y.restOrClose x.nextOrderId)
  | queued (ctx : Ctx) (trader : Address) (m : MarketId) (side : Side) (orderType : OrderType)
      (offsetBps : Sint 16) (size : Uint 128) (accepted : Accepted x m orderType offsetBps size)
      (mode : (x.marketStates m).mode = .batch) :
      Effect x (.placeOrder ctx trader m side orderType offsetBps size)
        ((x.written ctx trader m side orderType offsetBps size).addToBatch x.nextOrderId trader m
          side offsetBps size)
  | cancelled (ctx : Ctx) (orderId : Nat) (trader : Address)
      (active : (x.orders orderId).active) :
      Effect x (.cancelOrder ctx orderId trader)
        { x.deactivate orderId with cancelled := x.cancelled ++ [orderId] }
  | emptied (ctx : Ctx) (gas : Nat) (m : MarketId)
      (empty : x.batchBuys m = [] ∨ x.batchSells m = []) :
      Effect x (.clearBatch ctx gas m) (x.clearBatchState m)
  | dealt (ctx : Ctx) (gas : Nat) (m : MarketId) (oraclePrice : Sint 256) (F : List Fill)
      (y : Exchange) (active : (x.marketStates m).active)
      (price : ctx.price m = some oraclePrice)
      (dealt : Dealt m (x.clearing oraclePrice m).price oraclePrice (x.marketStates m)
        (x.clearing oraclePrice m).matchedVolume.val (x.batchBuys m) (x.batchSells m) x F y) :
      Effect x (.clearBatch ctx gas m) ((y.clearBatchState m).stampBatch m ctx.block)
  | custody (op : VaultOp) (custody : VaultRun)
      (foreign : ∀ sender user token delta,
        op ≠ .call (.updateVirtualBalance sender user token delta))
      (step : x.custody.step op = some custody) :
      Effect x (.custody op) { x with custody := custody }
  | administered (l : Label) (x' : Exchange) (administrative : l.Administrative)
      (administered : Administered x l x') : Effect x l x'

theorem effect_of_step (hx : x.WellFormed) (h : x.step l = some x') : Effect x l x' := by
  cases l with
  | placeOrder ctx trader m side orderType offsetBps size =>
    obtain ⟨haccepted, ⟨oracle, y, left, hwalked, rfl⟩ | ⟨hmode, rfl⟩⟩ :=
      placeOrder_ok (toOption_eq_some.mp h)
    · obtain ⟨F, hF⟩ := hwalked.swept hx
      exact .swept ctx trader m side orderType offsetBps size oracle F y left haccepted
        hwalked.mode hwalked.price hF
    · exact .queued ctx trader m side orderType offsetBps size haccepted hmode
  | cancelOrder ctx orderId trader =>
    obtain ⟨hactive, rfl⟩ := cancelOrder_ok (toOption_eq_some.mp h)
    exact .cancelled ctx orderId trader hactive
  | clearBatch ctx gas m =>
    obtain ⟨hactive, -, ⟨hempty, rfl⟩ | ⟨-, -, oracle, y, F, hprice, hF, rfl⟩⟩ :=
      clearBatch_ok (toOption_eq_some.mp h)
    · exact .emptied ctx gas m hempty
    · exact .dealt ctx gas m oracle F y hactive hprice hF
  | custody op =>
    obtain ⟨hop, custody, hstep, rfl⟩ := custodyStep_some h
    exact .custody op custody hop hstep
  | createMarket | setMarketMode | setRouter | pause | unpause =>
    refine .administered _ _ trivial (administered_of_step ?_ h)
    trivial

theorem WellFormed.step (h : x.WellFormed) (hstep : x.step l = some x') : x'.WellFormed := by
  cases effect_of_step h hstep with
  | swept _ _ _ _ _ _ _ _ _ _ _ _ _ _ hF =>
    obtain ⟨hy, hlt, hnew⟩ := SweptFor.wellFormed h hF
    exact hy.restOrClose hlt hnew
  | queued =>
    refine h.written.addToBatch (Nat.lt_succ_self _) h.not_listed_written ?_
    rw [written_self]
    exact ⟨rfl, rfl, rfl, rfl, rfl⟩
  | cancelled _ orderId _ hactive =>
    refine h.congr rfl ?_ (x.deactivate_terms orderId)
    intro id hid
    refine x.deactivate_of_ne orderId ?_
    rintro rfl
    rw [h.unwritten id hid] at hactive
    cases hactive
  | emptied _ _ m => exact h.clearBatchState m
  | dealt _ _ m _ _ y _ _ hF =>
    have hy : y.WellFormed := by
      refine h.congr hF.booked.arrays ?_ ?_
      · intro id _
        rw [hF.orders]
      · intro id
        rw [hF.orders]
    exact (hy.clearBatchState m).congr rfl (fun _ _ => rfl) (fun _ => rfl)
  | custody => exact h.congr rfl (fun _ _ => rfl) (fun _ => rfl)
  | administered _ _ _ hadmin =>
    refine h.congr hadmin.arrays ?_ ?_
    · intro id _
      rw [hadmin.orders]
    · intro _
      rw [hadmin.orders]

/-! ### What one step does to orders, arrays and markets -/

theorem nextOrderId_of_step (hx : x.WellFormed) (h : x.step l = some x') :
    (∃ ctx trader m side orderType offsetBps size,
      l = .placeOrder ctx trader m side orderType offsetBps size ∧
      x'.nextOrderId = x.nextOrderId + 1 ∧ (x'.orders x.nextOrderId).terms =
        (newOrder ctx x.nextOrderId trader m side orderType offsetBps size).terms) ∨
    ((∀ ctx trader m side orderType offsetBps size,
      l ≠ .placeOrder ctx trader m side orderType offsetBps size) ∧
      x'.nextOrderId = x.nextOrderId) := by
  cases effect_of_step hx h with
  | swept ctx trader m side orderType offsetBps size _ _ _ _ _ _ _ hF =>
    refine .inl ⟨ctx, trader, m, side, orderType, offsetBps, size, rfl, ?_, ?_⟩
    · rw [(quiet_restOrClose _ _).nextOrderId]
      exact nextOrderId_of_arrays hF.booked.arrays
    · rw [restOrClose_terms, hF.terms, written_self]
  | queued ctx trader m side orderType offsetBps size =>
    refine .inl ⟨ctx, trader, m, side, orderType, offsetBps, size, rfl, ?_⟩
    rw [(quiet_addToBatch _ _ _ _ _ _ _).nextOrderId, orders_addToBatch, written_self]
    exact ⟨rfl, rfl⟩
  | cancelled | emptied | custody => exact .inr ⟨(fun _ _ _ _ _ _ _ heq => nomatch heq), rfl⟩
  | dealt _ _ _ _ _ _ _ _ hF =>
    exact .inr ⟨(fun _ _ _ _ _ _ _ heq => nomatch heq),
      (nextOrderId_of_arrays hF.booked.arrays :)⟩
  | administered _ _ hl hadmin =>
    refine .inr ⟨?_, nextOrderId_of_arrays hadmin.arrays⟩
    rintro _ _ _ _ _ _ _ rfl
    exact hl.elim

theorem nextOrderId_le_of_step (hx : x.WellFormed) (h : x.step l = some x') :
    x.nextOrderId ≤ x'.nextOrderId := by
  rcases nextOrderId_of_step hx h with ⟨_, _, _, _, _, _, _, -, hnext, -⟩ | ⟨-, hnext⟩
  · rw [hnext]
    exact Nat.le_succ _
  · exact hnext.ge

section

variable (hx : x.WellFormed) (h : x.step l = some x')

include hx h

theorem terms_of_step (hid : id < x.nextOrderId) : (x'.orders id).terms = (x.orders id).terms := by
  cases effect_of_step hx h with
  | swept _ _ _ _ _ _ _ _ _ _ _ _ _ _ hF => rw [restOrClose_terms, hF.terms, written_of_ne hid.ne]
  | queued => rw [orders_addToBatch, written_of_ne hid.ne]
  | cancelled _ orderId => exact x.deactivate_terms orderId id
  | emptied => rfl
  | dealt _ _ _ _ _ _ _ _ hF =>
    exact congrArg (fun orders : Nat → Order => (orders id).terms) hF.orders
  | custody => rfl
  | administered _ _ _ hadmin => rw [hadmin.orders]

theorem active_of_step (hid : id < x.nextOrderId) (hactive : (x'.orders id).active) :
    (x.orders id).active := by
  cases effect_of_step hx h with
  | swept _ _ _ _ _ _ _ _ _ _ _ _ _ _ hF =>
    have hbefore := hF.active id (restOrClose_active hactive)
    rwa [written_of_ne hid.ne] at hbefore
  | queued => rwa [orders_addToBatch, written_of_ne hid.ne] at hactive
  | cancelled _ orderId => exact ((x.deactivate_active orderId id).mp hactive).2
  | emptied | custody => exact hactive
  | dealt _ _ _ _ _ _ _ _ hF => exact hF.orders ▸ hactive
  | administered _ _ _ hadmin => rwa [hadmin.orders] at hactive

theorem mem_book_of_step (hid : id ∈ x'.book side m) :
    id ∈ x.book side m ∨ ∃ ctx trader offsetBps size,
      l = .placeOrder ctx trader m side .limit offsetBps size ∧ id = x.nextOrderId ∧
      (x'.orders id).offsetBps = offsetBps := by
  cases effect_of_step hx h with
  | swept ctx trader m' side' orderType offsetBps size _ _ y left _ _ _ hF =>
    have hterms := hF.terms x.nextOrderId
    rw [written_self] at hterms
    rcases mem_book_restOrClose hid with hid | ⟨rfl, hrests, -⟩
    · rw [book_of_arrays hF.booked.arrays] at hid
      left
      cases side <;> exact hid
    obtain rfl : m' = m := (marketId_of_terms hterms).symm.trans hrests.marketId
    obtain rfl : side' = side := (side_of_terms hterms).symm.trans hrests.side
    obtain rfl : orderType = .limit :=
      (orderType_of_terms hterms).symm.trans hrests.orderType
    refine .inr ⟨ctx, trader, offsetBps, size, rfl, rfl, ?_⟩
    rw [offsetBps_of_terms (restOrClose_terms y _ _), offsetBps_of_terms hterms]
    rfl
  | queued =>
    rw [book_addToBatch] at hid
    left
    cases side <;> exact hid
  | cancelled | custody => exact .inl hid
  | emptied =>
    left
    cases side <;> exact hid
  | dealt _ _ _ _ _ _ _ _ hF =>
    left
    rw [← book_of_arrays hF.booked.arrays]
    cases side <;> exact hid
  | administered _ _ _ hadmin =>
    rw [book_of_arrays hadmin.arrays] at hid
    exact .inl hid

theorem mem_queue_of_step (hq : q ∈ x'.queue side m) :
    q ∈ x.queue side m ∨ ∃ ctx orderType, (x.marketStates m).mode = .batch ∧
      l = .placeOrder ctx q.trader m side orderType q.entry.offsetBps q.entry.size ∧
      q.orderId = x.nextOrderId := by
  cases effect_of_step hx h with
  | swept _ _ _ _ _ _ _ _ _ _ left _ _ _ hF =>
    rw [queue_restOrClose, queue_of_arrays hF.booked.arrays] at hq
    left
    cases side <;> exact hq
  | queued ctx _ _ _ orderType _ _ _ hmode =>
    rw [queue_addToBatch] at hq
    split at hq
    · rename_i hsame
      obtain ⟨rfl, rfl⟩ := hsame
      rcases mem_append.mp hq with hq | hq
      · left
        cases side <;> exact hq
      · obtain rfl := mem_singleton.mp hq
        exact .inr ⟨ctx, orderType, hmode, rfl, rfl⟩
    · left
      cases side <;> exact hq
  | cancelled | custody => exact .inl hq
  | emptied => exact .inl (mem_queue_clearBatchState hq).2
  | dealt _ _ _ _ _ _ _ _ hF =>
    left
    rw [← queue_of_arrays hF.booked.arrays]
    exact (mem_queue_clearBatchState hq).2
  | administered _ _ _ hadmin =>
    rw [queue_of_arrays hadmin.arrays] at hq
    exact .inl hq

theorem markets_of_step : x'.marketStates = x.marketStates ∨ Administered x l x' := by
  cases effect_of_step hx h with
  | swept _ _ _ _ _ _ _ _ _ _ _ _ _ _ hF =>
    rw [(quiet_restOrClose _ _).marketStates]
    exact .inl (hF.booked.marketStates :)
  | queued =>
    rw [(quiet_addToBatch _ _ _ _ _ _ _).marketStates]
    exact .inl rfl
  | cancelled | emptied | custody => exact .inl rfl
  | dealt _ _ _ _ _ y _ _ hF =>
    exact .inl (hF.booked.marketStates : y.marketStates = x.marketStates)
  | administered _ _ _ hadmin => exact .inr hadmin

end

theorem wellFormed_start (self owner : Address) (custody : VaultRun) :
    (start self owner custody).WellFormed where
  unwritten := fun _ _ => rfl
  placed := by rintro id (⟨side, m, hid⟩ | ⟨side, m, hid⟩) <;> cases side <;> cases hid
  resting := by
    intro side m id hid
    cases side <;> cases hid
  queued := by
    intro side m _ hq
    cases side <;> cases hq
  nodupBook := by
    intro side m
    cases side <;> exact nodup_nil
  nodupQueue := by
    intro side m
    cases side <;> exact nodup_nil
  apart := by
    intro side _ _ hid
    cases side <;> cases hid

/-- The states an exchange gets into, whatever is called. -/
abbrev Reachable (self owner : Address) (custody : VaultRun) (x : Exchange) : Prop :=
  Path Exchange.step (fun _ _ => True) (start self owner custody) x

theorem Reachable.wellFormed {self owner : Address} {custody : VaultRun}
    (h : Reachable self owner custody x) : x.WellFormed :=
  h.invariant (fun _ _ _ hI _ hstep => hI.step hstep) (wellFormed_start self owner custody)

end Exchange

/-! ## A market to run -/

namespace SpotRun

def owner : Address := .ofNat 101
def router : Address := .ofNat 104
def alice : Address := .ofNat 2
def bob : Address := .ofNat 3
def base : Address := .ofNat 20
def quote : Address := .ofNat 21

/-- The settlement engine at its start: nobody has tokens. -/
def vault : VaultRun := .start CustodyRun.settlement fun _ _ => 0

def fresh : Exchange := .start CustodyRun.engine owner vault

/-- A call by the router in a block, when the oracle answers a price. -/
def call (block : Nat) (price : Sint 256) : Ctx := ⟨router, block, fun _ => some price⟩

/-- One hundred quote tokens. -/
def hundred : Sint 256 := ⟨100 * 10 ^ 18, by decide, by decide⟩

/-- Connect the contracts and open market 7. -/
def opening (mode : MarketMode) (takerFeeBps : Nat) : List Label :=
  [.setRouter owner router, .custody (.call (.setMatchingEngine owner CustodyRun.engine)),
    .createMarket owner 7 base quote mode .zero (.wrap 500) (.truncate takerFeeBps)]

/-- A LIMIT order in market 7, in block 1 and at an oracle price of 100. -/
def limit (trader : Address) (side : Side) (offsetBps : Int) (size : Nat) : Label :=
  .placeOrder (call 1 hundred) trader 7 side .limit (.wrap offsetBps) (.truncate size)

end SpotRun

end HyperPax.PaxSpot
