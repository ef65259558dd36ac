/-
  PaxSpot/Priority.lean --- in which order the matching loop takes the entries of a book.

  `_matchAgainstBook` walks the opposing ids in the order in which they were pushed and fills every
  entry that crosses: prices decide whether an entry is taken, never when.  So a better one is
  passed over exactly if the book is out of order as far as the order reaches (`InPriority`).
-/
import HyperPax.PaxSpot.Book

set_option autoImplicit false

namespace HyperPax.PaxSpot

open Lib Exchange List

/-- What the loop knows of the incoming order and its market. -/
structure Taker where
  id : Nat
  side : Side
  price : Sint 256
  oraclePrice : Sint 256
  market : MarketState

namespace Taker

variable (k : Taker)

def visit (state : Exchange × Uint 128) (id : Nat) : Except Revert (Exchange × Uint 128) :=
  Exchange.visit k.id k.price k.oraclePrice k.market state id

/-- The price of a resting order. -/
def priceOf (o : Order) : Sint 256 := resolveOffset k.oraclePrice o.offsetBps

/-- An active order with unfilled size whose price the incoming order crosses. -/
def Takes (o : Order) : Prop :=
  o.active ∧ o.filledSize.val < o.size.val ∧
    Exchange.PricesCross k.side k.price (k.priceOf o)
deriving Decidable

/-- A strictly better price for the incoming order. -/
def Better (p q : Sint 256) : Prop :=
  match k.side with
  | .buy => p.val < q.val
  | .sell => q.val < p.val

/-- An order is passed over for a worse one. -/
def PassesOver (taken other : Order) : Prop :=
  k.Takes other ∧ k.Better (k.priceOf other) (k.priceOf taken)

/-- Whenever the loop over `ids` fills an entry, no entry of `book` is passed over. -/
def NoTradeThrough (book ids : List Nat) (x : Exchange) (remaining : Uint 128) : Prop :=
  ∀ done id rest y r, ids = done ++ id :: rest →
    done.foldlM k.visit (x, remaining) = .ok (y, r) → 0 < r.val → k.Takes (y.orders id) →
    ∀ other ∈ book, ¬ k.PassesOver (y.orders id) (y.orders other)

/-- As far as `remaining` reaches, an entry that can be taken has no better one behind it. -/
def InPriority (orders : Nat → Order) : Nat → List Nat → Prop
  | _, [] => True
  | remaining, id :: rest =>
    (0 < remaining → k.Takes (orders id) →
      ∀ other ∈ rest, ¬ k.PassesOver (orders id) (orders other)) ∧
    InPriority orders
      (if k.Takes (orders id) then
        remaining - ((orders id).size.val - (orders id).filledSize.val) else remaining) rest

theorem not_passesOver_self (o : Order) : ¬ k.PassesOver o o := by
  rintro ⟨-, hbetter⟩
  unfold Better at hbetter
  split at hbetter <;> exact absurd hbetter (lt_irrefl _)

variable {k} {x y : Exchange} {r r' : Uint 128} {id : Nat} {rest : List Nat}

variable {ids : List Nat}

theorem inPriority_congr {orders orders' : Nat → Order} {n : Nat}
    (h : ∀ id ∈ ids, orders' id = orders id) :
    k.InPriority orders' n ids ↔ k.InPriority orders n ids := by
  induction ids generalizing n with
  | nil => exact .rfl
  | cons id ids ih =>
    have hrest : ∀ i ∈ ids, orders' i = orders i := fun i hi => h i (mem_cons_of_mem _ hi)
    simp only [InPriority, h id mem_cons_self, ih hrest]
    refine and_congr_left fun _ => imp_congr_right fun _ => imp_congr_right fun _ => ?_
    refine forall₂_congr fun other hother => ?_
    rw [hrest other hother]

theorem visit_effect (hne : k.id ≠ id) (hside : (x.orders k.id).side = k.side)
    (h : k.visit (x, r) id = .ok (y, r')) : (r'.val = if k.Takes (x.orders id) then
        r.val - ((x.orders id).size.val - (x.orders id).filledSize.val) else r.val) ∧
      (0 < r'.val → ¬ k.Takes (y.orders id)) ∧
      (∀ other, other ≠ k.id → other ≠ id → y.orders other = x.orders other) ∧
      (y.orders k.id).side = k.side := by
  rcases visit_cases hne h with ⟨hreason, rfl, rfl⟩ | ⟨-, _, rfl, rfl⟩ |
    ⟨hpos, hcross, _, hm⟩
  · rw [hside] at hreason
    have hnot : 0 < r'.val → ¬ k.Takes (y.orders id) := by
      intro hpos htake
      rcases hreason with _ | hinact | hcross
      · omega
      · rw [htake.1] at hinact
        cases hinact
      · exact hcross htake.2.2
    refine ⟨?_, hnot, fun _ _ _ => rfl, hside⟩
    by_cases hpos : 0 < r'.val
    · exact (if_neg (hnot hpos)).symm
    · split <;> omega
  · have hnot : ¬ k.Takes (x.orders id) := fun htake => absurd htake.2.1 (by omega)
    refine ⟨(if_neg hnot).symm, ?_, fun _ _ hother => deactivate_of_ne _ _ hother, ?_⟩
    · intro _ htake
      have hdead := htake.1
      rw [deactivate_self] at hdead
      cases hdead
    · rw [deactivate_of_ne _ _ hne, hside]
  · rw [hside] at hcross
    have hsize := hm.size
    have hleft := hm.left
    refine ⟨?_, ?_, hm.others, ?_⟩
    · rw [if_pos ⟨hm.active, hm.unfilled, hcross⟩]
      omega
    · rintro _ ⟨-, hunfilled, -⟩
      obtain ⟨n, _, hresting⟩ := hm.resting
      rw [hresting] at hunfilled
      dsimp only at hunfilled
      omega
    · obtain ⟨_, -, hinc⟩ := hm.incoming
      rw [hinc]
      exact hside

theorem noTradeThrough_cons {book : List Nat} (h : k.visit (x, r) id = .ok (y, r')) :
    k.NoTradeThrough book (id :: rest) x r ↔ (0 < r.val → k.Takes (x.orders id) →
        ∀ other ∈ book, ¬ k.PassesOver (x.orders id) (x.orders other)) ∧
      k.NoTradeThrough book rest y r' := by
  constructor
  · intro hall
    refine ⟨hall [] id rest x r rfl rfl, ?_⟩
    intro done i rest' z q hids hwalk
    refine hall (id :: done) i rest' z q (by rw [hids, cons_append]) ?_
    rw [foldlM_cons, h]
    exact hwalk
  rintro ⟨hfirst, hrest⟩ done i rest' z q hids hwalk
  cases done with
  | nil =>
    cases hids
    cases hwalk
    exact hfirst
  | cons _ done =>
    rw [cons_append, List.cons.injEq] at hids
    obtain ⟨rfl, hids⟩ := hids
    rw [foldlM_cons, h] at hwalk
    exact hrest done i rest' z q hids hwalk

theorem noTradeThrough_iff (before : List Nat) {s : Exchange × Uint 128}
    (hwalk : ids.foldlM k.visit (x, r) = .ok s) (hnodup : (before ++ ids).Nodup)
    (hnew : k.id ∉ before ++ ids) (hside : (x.orders k.id).side = k.side)
    (hbefore : 0 < r.val → ∀ i ∈ before, ¬ k.Takes (x.orders i)) :
    k.NoTradeThrough (before ++ ids) ids x r ↔ k.InPriority x.orders r.val ids := by
  induction ids generalizing before x r with
  | nil =>
    refine iff_of_true (fun done id rest y q hids => ?_) trivial
    exact absurd hids (by simp)
  | cons id ids ih =>
    rw [foldlM_cons] at hwalk
    obtain ⟨⟨y, _⟩, hvisit, hwalk⟩ := bind_ok.mp hwalk
    have hmem : k.id ≠ id := fun heq => hnew (by simp [heq])
    obtain ⟨hleft, hfilled, hothers, hside'⟩ := visit_effect hmem hside hvisit
    have happend : before ++ id :: ids = (before ++ [id]) ++ ids := by simp
    rw [happend] at hnodup hnew
    have hkept : ∀ i ∈ before ++ ids, y.orders i = x.orders i := by
      intro i hi
      have hi' : i ∈ before ++ [id] ++ ids := by rcases mem_append.mp hi with hi | hi <;> simp [hi]
      refine hothers i (fun heq => hnew (heq ▸ hi')) ?_
      rintro rfl
      rw [← happend, nodup_middle, nodup_cons] at hnodup
      exact hnodup.1 hi
    rw [noTradeThrough_cons hvisit, InPriority, ← hleft,
      ← inPriority_congr fun i hi => hkept i (mem_append_right _ hi)]
    refine and_congr ?_ ?_
    · refine imp_congr_right fun hpos => imp_congr_right fun _ => ?_
      constructor
      · intro hall other hother
        exact hall other (by simp [hother])
      intro hall other hother
      rcases mem_append.mp hother with hother | hother
      · exact fun hpassed => hbefore hpos other hother hpassed.1
      rcases mem_cons.mp hother with rfl | hother
      · exact k.not_passesOver_self _
      · exact hall other hother
    · rw [happend]
      refine ih _ hwalk hnodup hnew hside' fun hpos i hi => ?_
      rcases mem_append.mp hi with hi | hi
      · rw [hkept i (mem_append_left _ hi)]
        refine hbefore ?_ i hi
        split at hleft <;> omega
      · rw [mem_singleton.mp hi]
        exact hfilled hpos

end Taker

namespace Exchange

/-- The incoming order of a placement. -/
def taker (x : Exchange) (order : Order) (oraclePrice : Sint 256) : Taker where
  id := x.nextOrderId
  side := order.side
  price := incomingAbsPrice order oraclePrice
  oraclePrice := oraclePrice
  market := x.marketStates order.marketId

/-- A continuous placement passes no better entry over exactly if, as far as the order reaches, the
entries of the opposing book that it crosses are in the order of their prices. -/
theorem placeOrder_priority_iff (ctx : Ctx) (x x' : Exchange) (trader : Address)
    (marketId : MarketId) (side : Side) (orderType : OrderType) (offsetBps : Sint 16)
    (size : Uint 128) (hx : x.WellFormed) (hmode : (x.marketStates marketId).mode = .continuous)
    (h : x.placeOrder ctx trader marketId side orderType offsetBps size = .ok x') :
    ∃ oraclePrice k, ctx.price marketId = some oraclePrice ∧
      k = x.taker (newOrder ctx x.nextOrderId trader marketId side orderType offsetBps size)
        oraclePrice ∧ (k.NoTradeThrough (x.opposingIds side marketId) (x.opposingIds side marketId)
          (x.written ctx trader marketId side orderType offsetBps size) size ↔
        k.InPriority x.orders size.val (x.opposingIds side marketId)) := by
  obtain ⟨-, ⟨oraclePrice, _, _, hwalked, -⟩ | ⟨hbatch, -⟩⟩ := placeOrder_ok h
  · have hbook : ∃ other, x.opposingIds side marketId = x.book other marketId := by
      cases side
      · exact ⟨.sell, rfl⟩
      · exact ⟨.buy, rfl⟩
    obtain ⟨other, hbook⟩ := hbook
    have hnew : x.nextOrderId ∉ x.opposingIds side marketId := by
      rw [hbook]
      intro hmem
      exact absurd (hx.placed _ (.inl ⟨other, marketId, hmem⟩)) (lt_irrefl _)
    have hnodup : (x.opposingIds side marketId).Nodup := by
      rw [hbook]
      exact hx.nodupBook _ _
    have hwritten := Function.update_self x.nextOrderId
      (newOrder ctx x.nextOrderId trader marketId side orderType offsetBps size) x.orders
    have hsame : ∀ id ∈ x.opposingIds side marketId,
        (x.written ctx trader marketId side orderType offsetBps size).orders id = x.orders id := by
      intro _ hid
      refine Function.update_of_ne ?_ _ _
      rintro rfl
      exact hnew hid
    refine ⟨oraclePrice, _, hwalked.price, rfl, ?_⟩
    rw [← Taker.inPriority_congr hsame]
    exact Taker.noTradeThrough_iff [] hwalked.walk hnodup hnew (congrArg Order.side hwritten)
      (fun _ i hi => absurd hi not_mem_nil)
  · rw [hmode] at hbatch
    cases hbatch

open SpotRun in
/-- Alice sells at 102, then Bob sells at 101.  A buy that crosses both is filled at 102, and
Bob's order is left as it was. -/
theorem better_sell_passed_over : ∃ x x', Reachable CustodyRun.engine owner vault x ∧
      x.step (limit alice .buy 300 5) = some x' ∧
      x'.fills.map (fun f => f.price.val) = [102 * 10 ^ 18] ∧
      x'.orders 2 = x.orders 2 ∧ (x.orders 2).active ∧
      (x.orders 2).filledSize.val = 0 ∧ (x.orders 2).size.val = 5 ∧
      (resolveOffset hundred (x.orders 2).offsetBps).val = 101 * 10 ^ 18 :=
  exists_step_of_run fresh
    (opening .continuous 0 ++ [limit alice .sell 200 5, limit bob .sell 100 5])
    (by decide +kernel)

open SpotRun in
/-- Two sells in the order of their prices, and a buy that takes both. -/
theorem two_entries_in_priority : ∃ (x : Exchange) (k : Taker) (size : Uint 128),
    x.opposingIds .buy 7 = [1, 2] ∧
      (resolveOffset hundred (x.orders 1).offsetBps).val = 101 * 10 ^ 18 ∧
      (resolveOffset hundred (x.orders 2).offsetBps).val = 102 * 10 ^ 18 ∧
      k.NoTradeThrough [1, 2] [1, 2]
        (x.written (call 1 hundred) alice 7 .buy .limit (.wrap 300) size) size := by
  obtain ⟨x, hreach, hids, hfirst, hsecond, hmode, hok⟩ : ∃ x : Exchange,
      Reachable CustodyRun.engine owner vault x ∧ x.opposingIds .buy 7 = [1, 2] ∧
      (resolveOffset hundred (x.orders 1).offsetBps).val = 101 * 10 ^ 18 ∧
      (resolveOffset hundred (x.orders 2).offsetBps).val = 102 * 10 ^ 18 ∧
      (x.marketStates 7).mode = .continuous ∧
      (x.placeOrder (call 1 hundred) alice 7 .buy .limit (.wrap 300) (Uint.truncate 10)).isOk :=
    exists_path fresh (opening .continuous 0 ++ [limit bob .sell 100 5, limit bob .sell 200 5])
      (by decide +kernel)
  cases hplace : x.placeOrder (call 1 hundred) alice 7 .buy .limit (.wrap 300)
      (.truncate 10) with
  | error =>
    rw [hplace] at hok
    cases hok
  | ok x' =>
    obtain ⟨_, k, horacle, hk, hiff⟩ := placeOrder_priority_iff (call 1 hundred) x x' alice 7 .buy
      .limit (.wrap 300) (.truncate 10) hreach.wellFormed hmode hplace
    cases horacle
    rw [hids] at hiff
    refine ⟨x, k, _, hids, hfirst, hsecond, hiff.mpr ⟨fun _ _ other hother => ?_, ?_, trivial⟩⟩
    · -- the second entry is dearer
      obtain rfl := mem_singleton.mp hother
      rintro ⟨-, hbetter⟩
      have hlt : (resolveOffset hundred (x.orders 2).offsetBps).val <
          (resolveOffset hundred (x.orders 1).offsetBps).val := by
        rw [hk] at hbetter
        exact hbetter
      omega
    · intro _ _ other hother
      exact absurd hother not_mem_nil

end Exchange

end HyperPax.PaxSpot
