/-
  PaxSpot/Batch.lean --- how a cleared volume is dealt out.

  `_executeBatchFills` walks both queues from the front, one index each, and fills
  the two entries it stands at with what is left of the volume; offsets play no
  part.  So an entry is filled exactly when the entries before it are smaller than the
  volume (`reached`).

  The loop compares entries with the volume cut to 128 bits.  From `2^128` on it comes to a
  fill of size zero and repeats it (`lt_of_batchFills`).
-/
import HyperPax.PaxSpot.Fills

set_option autoImplicit false

namespace HyperPax.PaxSpot

open Lib List Queued
open Exchange (advance minSize executeBatchFills)

/-! ## Reached entries -/

/-- The total size of a queue. -/
def queueVolume (qs : List Queued) : Nat := volume (qs.map entry)

@[simp] theorem queueVolume_nil : queueVolume [] = 0 := rfl

@[simp] theorem queueVolume_cons (q : Queued) (qs : List Queued) :
    queueVolume (q :: qs) = q.entry.size.val + queueVolume qs := by
  simp [queueVolume, volume]

theorem cons_of_le_queueVolume {n : Nat} {qs : List Queued} (h : n ≤ queueVolume qs)
    (hn : n ≠ 0) : ∃ q rest, qs = q :: rest := by
  cases qs with
  | nil => exact absurd (Nat.le_zero.mp h) hn
  | cons q rest => exact ⟨q, rest, rfl⟩

/-- The entries with less than `M` before them. -/
def reached (M : Nat) : List Queued → List Queued
  | [] => []
  | q :: qs => if M = 0 then [] else q :: reached (M - q.entry.size.val) qs

@[simp] theorem reached_zero (qs : List Queued) : reached 0 qs = [] := by
  cases qs <;> simp [reached]

theorem reached_cons {M : Nat} (hM : 0 < M) (q : Queued) (qs : List Queued) :
    reached M (q :: qs) = q :: reached (M - q.entry.size.val) qs := by
  rw [reached, if_neg (by omega)]

theorem reached_subset (M : Nat) (qs : List Queued) : reached M qs ⊆ qs := by
  induction qs generalizing M with
  | nil => simp [reached]
  | cons q _ ih =>
    unfold reached
    split
    · simp
    · exact cons_subset_cons q (ih _)

section

variable {q : Queued} {qs : List Queued} {left : Uint 128} {f : Nat}

theorem queueVolume_advance (qs : List Queued) (h : left.val + f = q.entry.size.val) :
    queueVolume (advance q qs left) + f = queueVolume (q :: qs) := by
  unfold advance
  split <;> simp only [queueVolume_cons] <;> omega

theorem mem_reached_advance {M : Nat} (h : left.val + f = q.entry.size.val) (hM : 0 < M)
    (hf : f ≤ M) (id : Nat) :
    (id = q.orderId ∨ id ∈ (reached (M - f) (advance q qs left)).map orderId) ↔
      id ∈ (reached M (q :: qs)).map orderId := by
  rw [reached_cons hM, map_cons, mem_cons]
  unfold advance
  split
  · rename_i hempty
    have heq : q.entry.size.val = f := by omega
    rw [heq]
  rename_i hleft
  by_cases hrest : M - f = 0
  · -- the volume ends inside this entry
    have hend : M - q.entry.size.val = 0 := by omega
    rw [hrest, hend, reached_zero, reached_zero]
  rw [reached_cons (by omega)]
  have hsub : M - f - left.val = M - q.entry.size.val := by omega
  simp only [map_cons, mem_cons, hsub]
  tauto

end

/-! ## Dealing -/

/-- One fill of a batch. -/
structure Deal where
  buyIdx : Nat
  sellIdx : Nat
  size : Uint 128

/-- An index moves past an entry with nothing left. -/
def nextIdx (idx : Nat) (size : Uint 128) : Nat := if size.val = 0 then idx + 1 else idx

/-- The fills of `_executeBatchFills`; `none` is a loop that has not ended within the gas. -/
def batchFills : Nat → Uint 256 → Nat → Nat → List Queued → List Queued → Option (List Deal)
  | gas, remainingVolume, buyIdx, sellIdx, buy :: buys, sell :: sells =>
    if remainingVolume.val = 0 then some []
    else match gas with
      | 0 => none
      | gas + 1 => do
        let fillSize := minSize buy.entry.size sell.entry.size
          (.truncate remainingVolume.val)
        let remainingVolume ← remainingVolume.sub? (.truncate fillSize.val)
        let buySize ← buy.entry.size.sub? fillSize
        let sellSize ← sell.entry.size.sub? fillSize
        let rest ← batchFills gas remainingVolume (nextIdx buyIdx buySize)
          (nextIdx sellIdx sellSize) (advance buy buys buySize) (advance sell sells sellSize)
        return ⟨buyIdx, sellIdx, fillSize⟩ :: rest
  | _, _, _, _, _, _ => some []

/-- What an entry was filled with. -/
def dealtTo (idx : Deal → Nat) (i : Nat) (ds : List Deal) : Nat :=
  (ds.map fun d => if idx d = i then d.size.val else 0).sum

/-- The size of an entry, nothing behind the end of the queue. -/
def sizeAt (qs : List Queued) (i : Nat) : Nat := (qs[i]?.map fun q => q.entry.size.val).getD 0

/-! ## The loop -/

section

open Exchange

variable {marketId : MarketId} {clearingPrice oracle : Sint 256} {market : MarketState}
  {gas i j f : Nat} {remaining : Uint 256} {buys sells qs : List Queued} {x y : Exchange}
  {q : Queued} {left : Uint 128}

theorem minSize_val (a b c : Uint 128) : (minSize a b c).val = min (min a.val b.val) c.val := by
  unfold minSize
  dsimp only
  split <;> split <;> omega

theorem executeBatchFills_of_zero (h : remaining.val = 0) :
    executeBatchFills marketId clearingPrice oracle market gas remaining buys sells x = .ok x := by
  cases gas <;> cases buys <;> cases sells <;> simp [executeBatchFills, h]

theorem executeBatchFills_succ {buy sell : Queued} (hpos : remaining.val ≠ 0)
    (h : executeBatchFills marketId clearingPrice oracle market gas remaining (buy :: buys)
      (sell :: sells) x = .ok y) : ∃ gas' fillSize z left buyLeft sellLeft,
      (fillSize.val = min (min buy.entry.size.val sell.entry.size.val) (remaining.val % 2 ^ 128) ∧
      x.settleBatchFill marketId buy sell fillSize clearingPrice oracle market = .ok z) ∧
      (gas = gas' + 1 ∧ left.val + fillSize.val = remaining.val ∧
        buyLeft.val + fillSize.val = buy.entry.size.val ∧
        sellLeft.val + fillSize.val = sell.entry.size.val) ∧
      executeBatchFills marketId clearingPrice oracle market gas' left
        (advance buy buys buyLeft) (advance sell sells sellLeft) z = .ok y := by
  cases gas with
  | zero =>
    rw [executeBatchFills, if_neg hpos] at h
    cases h
  | succ gas =>
    rw [executeBatchFills, if_neg hpos] at h
    obtain ⟨z, hz, h⟩ := bind_ok.mp h
    obtain ⟨left, hleft, h⟩ := orRevert_bind_ok.mp h
    obtain ⟨buyLeft, hbuy, h⟩ := orRevert_bind_ok.mp h
    obtain ⟨sellLeft, hsell, h⟩ := orRevert_bind_ok.mp h
    have hleft' := Uint.sub?_eq_some.mp hleft
    rw [Uint.truncate_of_lt ((minSize _ _ _).lt_two_pow.trans (by norm_num))] at hleft'
    exact ⟨gas, _, z, left, buyLeft, sellLeft, ⟨minSize_val _ _ _, hz⟩,
      ⟨rfl, hleft', Uint.sub?_eq_some.mp hbuy, Uint.sub?_eq_some.mp hsell⟩, h⟩

theorem executeBatchFills_induction {P : Nat → List Queued → List Queued → Exchange → Prop}
    (hdone : ∀ buys sells, P 0 buys sells y)
    (hfill : ∀ (remaining left : Nat) (buy sell : Queued) (buys sells : List Queued)
      (fillSize buyLeft sellLeft : Uint 128) (x z : Exchange), 0 < remaining →
      fillSize.val = min (min buy.entry.size.val sell.entry.size.val) (remaining % 2 ^ 128) →
      x.settleBatchFill marketId buy sell fillSize clearingPrice oracle market = .ok z →
      left + fillSize.val = remaining → buyLeft.val + fillSize.val = buy.entry.size.val →
      sellLeft.val + fillSize.val = sell.entry.size.val →
      P left (advance buy buys buyLeft) (advance sell sells sellLeft) z →
      P remaining (buy :: buys) (sell :: sells) x)
    (h : executeBatchFills marketId clearingPrice oracle market gas remaining buys sells x = .ok y)
    (hbuys : remaining.val ≤ queueVolume buys) (hsells : remaining.val ≤ queueVolume sells) :
    P remaining.val buys sells x := by
  -- on the gas; the last iteration is the one that finds no volume left
  induction gas using Nat.strong_induction_on generalizing remaining buys sells x with
  | _ _ ih =>
    by_cases hpos : remaining.val = 0
    · rw [executeBatchFills_of_zero hpos, Except.ok.injEq] at h
      rw [hpos, h]
      exact hdone buys sells
    obtain ⟨buy, buys, rfl⟩ := cons_of_le_queueVolume hbuys hpos
    obtain ⟨sell, sells, rfl⟩ := cons_of_le_queueVolume hsells hpos
    obtain ⟨gas', fillSize, z, left, buyLeft, sellLeft, ⟨hsize, hsettle⟩,
      ⟨_, hleft, hbuyLeft, hsellLeft⟩, hrest⟩ := executeBatchFills_succ hpos h
    have hbuyVolume := queueVolume_advance buys hbuyLeft
    have hsellVolume := queueVolume_advance sells hsellLeft
    exact hfill remaining.val left.val buy sell buys sells fillSize buyLeft sellLeft x z
      (by omega) hsize hsettle hleft hbuyLeft hsellLeft
      (ih gas' (by omega) hrest (by omega) (by omega))

theorem batchFills_of_zero (h : remaining.val = 0) :
    batchFills gas remaining i j buys sells = some [] := by
  cases gas <;> cases buys <;> cases sells <;> simp [batchFills, h]

theorem batchFills_succ (hpos : remaining.val ≠ 0) (buy sell : Queued) (buys sells : List Queued)
    (i j : Nat) : ∃ (fillSize : Uint 128) (left : Uint 256) (buyLeft sellLeft : Uint 128),
      fillSize.val = min (min buy.entry.size.val sell.entry.size.val) (remaining.val % 2 ^ 128) ∧
      left.val + fillSize.val = remaining.val ∧ buyLeft.val + fillSize.val = buy.entry.size.val ∧
      sellLeft.val + fillSize.val = sell.entry.size.val ∧
      ∀ gas, batchFills (gas + 1) remaining i j (buy :: buys) (sell :: sells) =
        (batchFills gas left (nextIdx i buyLeft) (nextIdx j sellLeft) (advance buy buys buyLeft)
          (advance sell sells sellLeft)).map fun rest => ⟨i, j, fillSize⟩ :: rest := by
  have hval := minSize_val buy.entry.size sell.entry.size (Uint.truncate remaining.val)
  generalize hfill : minSize buy.entry.size sell.entry.size (.truncate remaining.val) =
    fillSize at hval
  have hmod : (.truncate remaining.val : Uint 128).val ≤ remaining.val := Nat.mod_le _ _
  have hcast : (.truncate fillSize.val : Uint 256).val = fillSize.val :=
    Uint.truncate_of_lt (fillSize.lt_two_pow.trans (by norm_num))
  have hleft : remaining.sub? (.truncate fillSize.val) =
      some ⟨remaining.val - fillSize.val, (Nat.sub_le _ _).trans_lt remaining.lt_two_pow⟩ := by
    rw [Uint.sub?_eq_some, hcast]
    dsimp only
    omega
  have hbuy : buy.entry.size.sub? fillSize = some ⟨buy.entry.size.val - fillSize.val,
      (Nat.sub_le _ _).trans_lt buy.entry.size.lt_two_pow⟩ := by
    rw [Uint.sub?_eq_some]
    dsimp only
    omega
  have hsell : sell.entry.size.sub? fillSize = some ⟨sell.entry.size.val - fillSize.val,
      (Nat.sub_le _ _).trans_lt sell.entry.size.lt_two_pow⟩ := by
    rw [Uint.sub?_eq_some]
    dsimp only
    omega
  refine ⟨fillSize, _, _, _, hval, hcast ▸ Uint.sub?_eq_some.mp hleft,
    Uint.sub?_eq_some.mp hbuy, Uint.sub?_eq_some.mp hsell, ?_⟩
  intro gas
  rw [batchFills, if_neg hpos, hfill]
  simp only [hleft, hbuy, hsell, Option.bind_eq_bind, Option.bind_some, Option.pure_def]
  cases batchFills gas _ _ _ _ _ <;> rfl

theorem lt_of_batchFills {ds : List Deal} (h : batchFills gas remaining i j buys sells = some ds)
    (hbuys : remaining.val ≤ queueVolume buys) (hsells : remaining.val ≤ queueVolume sells) :
    remaining.val < 2 ^ 128 := by
  induction gas generalizing remaining i j buys sells ds with
  | zero =>
    by_contra hlarge
    have hpos : remaining.val ≠ 0 := by omega
    obtain ⟨buy, buys, rfl⟩ := cons_of_le_queueVolume hbuys hpos
    obtain ⟨sell, sells, rfl⟩ := cons_of_le_queueVolume hsells hpos
    rw [batchFills, if_neg hpos] at h
    cases h
  | succ gas ih =>
    by_contra hlarge
    have hpos : remaining.val ≠ 0 := by omega
    obtain ⟨buy, buys, rfl⟩ := cons_of_le_queueVolume hbuys hpos
    obtain ⟨sell, sells, rfl⟩ := cons_of_le_queueVolume hsells hpos
    obtain ⟨_, _, _, _, _, _, hbuy, hsell, hstep⟩ :=
      batchFills_succ hpos buy sell buys sells i j
    rw [hstep gas] at h
    obtain ⟨_, hrest, -⟩ := Option.map_eq_some_iff.mp h
    have hbuyVolume := queueVolume_advance buys hbuy
    have hsellVolume := queueVolume_advance sells hsell
    have hlt := ih hrest (by omega) (by omega)
    -- the fill is at most the low 128 bits, so the rest is still `2^128` or more
    omega

theorem dealtTo_cons (idx : Deal → Nat) (a : Nat) (d : Deal) (ds : List Deal) :
    dealtTo idx a (d :: ds) = (if idx d = a then d.size.val else 0) + dealtTo idx a ds := by
  simp [dealtTo]

theorem dealt_le_of_advance {n a : Nat} (h : left.val + f = q.entry.size.val)
    (hn : n ≤ if nextIdx i left ≤ a then sizeAt (advance q qs left) (a - nextIdx i left) else 0) :
    (if i = a then f else 0) + n ≤ if i ≤ a then sizeAt (q :: qs) (a - i) else 0 := by
  rcases lt_trichotomy a i with hlt | rfl | _
  · rw [if_neg (by unfold nextIdx; split <;> omega)] at hn
    rw [if_neg hlt.ne', if_neg (by omega)]
    omega
  · rw [if_pos rfl, if_pos le_rfl, Nat.sub_self]
    have hhead : sizeAt (q :: qs) 0 = q.entry.size.val := rfl
    rw [hhead]
    unfold nextIdx advance at hn
    split at hn
    · rw [if_neg (by omega)] at hn
      omega
    rw [if_pos le_rfl, Nat.sub_self] at hn
    have hfront : sizeAt ({ q with entry := { q.entry with size := left } } :: qs) 0 =
        left.val := rfl
    omega
  · obtain ⟨k, rfl⟩ : ∃ k, a = i + 1 + k := ⟨a - (i + 1), by omega⟩
    rw [if_neg (by omega), if_pos (by omega), Nat.zero_add]
    have hpast : i + 1 + k - i = k + 1 := by omega
    have htail : ∀ q' : Queued, sizeAt (q' :: qs) (k + 1) = sizeAt qs k := fun _ => rfl
    rw [hpast, htail]
    unfold nextIdx advance at hn
    split at hn
    · rw [if_pos (by omega), Nat.add_sub_cancel_left] at hn
      exact hn
    · rw [if_pos (by omega), hpast, htail] at hn
      exact hn

theorem pos_of_mem_advance {q' : Queued} (h : ∀ e ∈ q :: qs, 0 < e.entry.size.val)
    (hq' : q' ∈ advance q qs left) : 0 < q'.entry.size.val := by
  unfold advance at hq'
  split at hq'
  · exact h q' (mem_cons_of_mem _ hq')
  rename_i hleft
  rcases mem_cons.mp hq' with rfl | hq'
  · exact Nat.pos_of_ne_zero hleft
  · exact h q' (mem_cons_of_mem _ hq')

theorem batchFills_exact (hgas : remaining.val ≤ gas) (hsmall : remaining.val < 2 ^ 128)
    (hbuys : remaining.val ≤ queueVolume buys) (hsells : remaining.val ≤ queueVolume sells)
    (hposb : ∀ q ∈ buys, 0 < q.entry.size.val) (hposs : ∀ q ∈ sells, 0 < q.entry.size.val) :
    ∃ ds, batchFills gas remaining i j buys sells = some ds ∧
      (ds.map fun d => d.size.val).sum = remaining.val ∧
      (∀ a, dealtTo Deal.buyIdx a ds ≤ if i ≤ a then sizeAt buys (a - i) else 0) ∧
      ∀ a, dealtTo Deal.sellIdx a ds ≤ if j ≤ a then sizeAt sells (a - j) else 0 := by
  induction gas generalizing remaining i j buys sells with
  | zero =>
    have hzero : remaining.val = 0 := by omega
    exact ⟨[], batchFills_of_zero hzero, hzero.symm, fun _ => Nat.zero_le _, fun _ => Nat.zero_le _⟩
  | succ gas ih =>
    by_cases hpos : remaining.val = 0
    · exact ⟨[], batchFills_of_zero hpos, hpos.symm, fun _ => Nat.zero_le _, fun _ => Nat.zero_le _⟩
    obtain ⟨buy, buys, rfl⟩ := cons_of_le_queueVolume hbuys hpos
    obtain ⟨sell, sells, rfl⟩ := cons_of_le_queueVolume hsells hpos
    obtain ⟨f, left, buyLeft, sellLeft, hf, hleft, hbuy, hsell, hstep⟩ :=
      batchFills_succ hpos buy sell buys sells i j
    rw [Nat.mod_eq_of_lt hsmall] at hf
    have hbuyPos := hposb buy mem_cons_self
    have hsellPos := hposs sell mem_cons_self
    have hbuyVolume := queueVolume_advance buys hbuy
    have hsellVolume := queueVolume_advance sells hsell
    have hgas' : left.val ≤ gas := by omega
    have hbuys' : left.val ≤ queueVolume (advance buy buys buyLeft) := by omega
    have hsells' : left.val ≤ queueVolume (advance sell sells sellLeft) := by omega
    obtain ⟨ds, hds, hsum, hb, hs⟩ := ih (i := nextIdx i buyLeft) (j := nextIdx j sellLeft)
      hgas' (by omega) hbuys' hsells' (fun q hq => pos_of_mem_advance hposb hq)
      (fun q hq => pos_of_mem_advance hposs hq)
    refine ⟨⟨i, j, f⟩ :: ds, ?_, ?_, ?_, ?_⟩
    · rw [hstep gas, hds]
      rfl
    · rw [map_cons, sum_cons, hsum, Nat.add_comm]
      exact hleft
    · intro a
      rw [dealtTo_cons]
      exact dealt_le_of_advance hbuy (hb a)
    · intro a
      rw [dealtTo_cons]
      exact dealt_le_of_advance hsell (hs a)

section

variable
  (h : executeBatchFills marketId clearingPrice oracle market gas remaining buys sells x = .ok y)

include h

/-- What the exchange executes are these fills. -/
theorem batchFills_of_executed (i j : Nat) :
    ∃ ds, batchFills gas remaining i j buys sells = some ds ∧
      ∃ F, y.fills = x.fills ++ F ∧ F.map Fill.size = ds.map Deal.size := by
  induction gas using Nat.strong_induction_on generalizing remaining buys sells x i j with
  | _ gas ih =>
    by_cases hpos : remaining.val = 0
    · rw [executeBatchFills_of_zero hpos, Except.ok.injEq] at h
      exact ⟨[], batchFills_of_zero hpos, [], by rw [h, append_nil], rfl⟩
    rcases buys with _ | ⟨buy, buys⟩
    case nil =>
      have hstay : x = y := by simpa [executeBatchFills] using h
      exact ⟨[], by cases gas <;> rfl, [], by rw [hstay, append_nil], rfl⟩
    rcases sells with _ | ⟨sell, sells⟩
    case nil =>
      have hstay : x = y := by simpa [executeBatchFills] using h
      exact ⟨[], by cases gas <;> rfl, [], by rw [hstay, append_nil], rfl⟩
    obtain ⟨gas', fillSize, _, left, buyLeft, sellLeft, ⟨hsize, hsettle⟩,
      ⟨hgas, _, _, _⟩, hrest⟩ := executeBatchFills_succ hpos h
    obtain ⟨f, left', buyLeft', sellLeft', hf, _, _, _, hstep⟩ :=
      batchFills_succ hpos buy sell buys sells i j
    have hsame : fillSize = f := Uint.ext (hsize.trans hf.symm)
    subst hsame
    obtain rfl : left = left' := Uint.ext (by omega)
    obtain rfl : buyLeft = buyLeft' := Uint.ext (by omega)
    obtain rfl : sellLeft = sellLeft' := Uint.ext (by omega)
    obtain ⟨ds, hds, F, hF, hsizes⟩ := ih gas' (by omega) hrest (nextIdx i buyLeft)
      (nextIdx j sellLeft)
    obtain ⟨fill, hbooked, -, -, -, hfsize, -⟩ := settleFill_ok hsettle
    refine ⟨⟨i, j, fillSize⟩ :: ds, ?_, fill :: F, ?_, ?_⟩
    · rw [hgas, hstep gas', hds]
      rfl
    · rw [hF, hbooked.fills, append_assoc]
      rfl
    · rw [map_cons, map_cons, hsizes, hfsize]

theorem lt_of_executeBatchFills_ok (hbuys : remaining.val ≤ queueVolume buys)
    (hsells : remaining.val ≤ queueVolume sells) : remaining.val < 2 ^ 128 := by
  obtain ⟨_, hds, -⟩ := batchFills_of_executed h 0 0
  exact lt_of_batchFills hds hbuys hsells

end

/-- The sizes of the entries made from one order. -/
def orderVolume (id : Nat) (qs : List Queued) : Nat :=
  queueVolume (qs.filter fun q => q.orderId = id)

theorem orderVolume_advance (qs : List Queued) (h : left.val + f = q.entry.size.val) (id : Nat) :
    orderVolume id (advance q qs left) + (if q.orderId = id then f else 0) =
      orderVolume id (q :: qs) := by
  unfold orderVolume advance
  by_cases hid : q.orderId = id
  · split <;> simp [hid] <;> omega
  · split <;> simp [hid]

/-- Whose entry it is. -/
def Queued.party (q : Queued) : Nat × Address := (q.orderId, q.trader)

theorem party_advance_subset (q : Queued) (qs : List Queued) (left : Uint 128) :
    (advance q qs left).map party ⊆ (q :: qs).map party := by
  unfold advance
  split
  · exact subset_cons_self _ _
  · exact List.Subset.refl _

/-- What a batch that was dealt out did: which orders it filled, at which price, for whom, and how
far. -/
structure Dealt (marketId : MarketId) (clearingPrice oraclePrice : Sint 256) (market : MarketState)
    (volume : Nat) (buys sells : List Queued) (x : Exchange) (F : List Fill) (y : Exchange) :
    Prop where
  booked : BookedAll market x F y
  orders : y.orders = x.orders
  dealt : fillVolume F = volume
  price : ∀ f ∈ F, f.marketId = marketId ∧ f.price = clearingPrice ∧ f.oraclePrice = oraclePrice
  filledBuys : ∀ id, id ∈ F.map Fill.buyOrderId ↔
    id ∈ (reached volume buys).map orderId
  filledSells : ∀ id, id ∈ F.map Fill.sellOrderId ↔
    id ∈ (reached volume sells).map orderId
  buyers : ∀ f ∈ F, (f.buyOrderId, f.buyer) ∈ buys.map party
  sellers : ∀ f ∈ F, (f.sellOrderId, f.seller) ∈ sells.map party
  bounded : ∀ id, traded id F ≤ orderVolume id buys + orderVolume id sells

theorem Dealt.forall_orders {m : MarketId} {price : Sint 256} {volume : Nat} {F : List Fill}
    (h : Dealt m price oracle market volume buys sells x F y) (P Q : Nat → Prop) :
    (∀ f ∈ F, P f.buyOrderId ∧ Q f.sellOrderId) ↔
      (∀ q ∈ reached volume buys, P q.orderId) ∧ ∀ q ∈ reached volume sells, Q q.orderId := by
  have hbuys := forall_congr' fun id => imp_congr_left (c := P id) (h.filledBuys id)
  have hsells := forall_congr' fun id => imp_congr_left (c := Q id) (h.filledSells id)
  rw [forall_mem_map, forall_mem_map] at hbuys hsells
  rw [← hbuys, ← hsells, forall₂_and]

theorem executeBatchFills_ok
    (h : executeBatchFills marketId clearingPrice oracle market gas remaining buys sells x = .ok y)
    (hbuys : remaining.val ≤ queueVolume buys) (hsells : remaining.val ≤ queueVolume sells) :
    ∃ F, Dealt marketId clearingPrice oracle market remaining.val buys sells x F y := by
  have hsmall := lt_of_executeBatchFills_ok h hbuys hsells
  revert hsmall
  refine executeBatchFills_induction (P := fun remaining buys sells x => remaining < 2 ^ 128 →
    ∃ F, Dealt marketId clearingPrice oracle market remaining buys sells x F y)
    ?_ ?_ h hbuys hsells
  · intro buys sells _
    exact ⟨[], BookedAll.nil market y, rfl, rfl, fun f hf => absurd hf not_mem_nil,
      fun id => by simp, fun id => by simp, fun f hf => absurd hf not_mem_nil,
      fun f hf => absurd hf not_mem_nil, fun _ => Nat.zero_le _⟩
  intro remaining left buy sell buys sells fillSize buyLeft sellLeft _ _ hpos hsize hsettle _
    hbuyLeft hsellLeft ih hsmall
  obtain ⟨f, hbooked, horders, ⟨hmarket, hbuyId, hsellId⟩, ⟨hbuyer, hseller⟩, hfsize, hprice,
    horacle⟩ := settleFill_ok hsettle
  obtain ⟨F, hF⟩ := ih (by omega)
  rw [Nat.mod_eq_of_lt hsmall] at hsize
  have hrest : left = remaining - fillSize.val := by omega
  refine ⟨f :: F, BookedAll.cons hbooked hF.booked, hF.orders.trans horders, ?_, ?_, ?_, ?_, ?_,
    ?_, ?_⟩
  · rw [fillVolume_cons, hF.dealt, hfsize]
    omega
  · intro g hg
    rcases mem_cons.mp hg with rfl | hg
    · exact ⟨hmarket, hprice, horacle⟩
    · exact hF.price g hg
  · intro id
    rw [map_cons, mem_cons, hF.filledBuys id, hbuyId, hrest]
    exact mem_reached_advance hbuyLeft hpos (by omega) id
  · intro id
    rw [map_cons, mem_cons, hF.filledSells id, hsellId, hrest]
    exact mem_reached_advance hsellLeft hpos (by omega) id
  · intro g hg
    rcases mem_cons.mp hg with rfl | hg
    · rw [hbuyId, hbuyer]
      exact mem_cons_self
    · exact party_advance_subset buy buys buyLeft (hF.buyers g hg)
  · intro g hg
    rcases mem_cons.mp hg with rfl | hg
    · rw [hsellId, hseller]
      exact mem_cons_self
    · exact party_advance_subset sell sells sellLeft (hF.sellers g hg)
  intro id
  have htail := hF.bounded id
  have hbuys := orderVolume_advance buys hbuyLeft id
  have hsells := orderVolume_advance sells hsellLeft id
  have hcons : traded id (f :: F) = traded id [f] + traded id F := traded_append id [f] F
  rw [hcons, traded_singleton, hbuyId, hsellId, hfsize]
  -- the fill counts once for an order, and its entry shrinks by it
  split
  · rename_i hid
    cases hid with
    | inl hid =>
      rw [if_pos hid] at hbuys
      omega
    | inr hid =>
      rw [if_pos hid] at hsells
      omega
  · omega

end

/-- A batch with positive sizes is dealt out in full, and no entry beyond its size, exactly if the
volume is below `2^128`; and whatever the exchange executes has been dealt so. -/
theorem batchFills_exact_iff (volume : Uint 256) (buys sells : List Queued)
    (hbuys : volume.val ≤ queueVolume buys) (hsells : volume.val ≤ queueVolume sells)
    (hpos : ∀ q ∈ buys ++ sells, 0 < q.entry.size.val) :
    ((∃ gas ds, batchFills gas volume 0 0 buys sells = some ds ∧
        (ds.map fun d => d.size.val).sum = volume.val ∧
        (∀ i, dealtTo Deal.buyIdx i ds ≤ sizeAt buys i) ∧
        ∀ i, dealtTo Deal.sellIdx i ds ≤ sizeAt sells i) ↔ volume.val < 2 ^ 128) ∧
      ∀ (marketId : MarketId) (clearingPrice oraclePrice : Sint 256) (market : MarketState)
        (gas : Nat) (x y : Exchange),
        executeBatchFills marketId clearingPrice oraclePrice market gas volume buys sells x =
            .ok y → ∃ ds, batchFills gas volume 0 0 buys sells = some ds ∧
            ∃ F, y.fills = x.fills ++ F ∧ F.map Fill.size = ds.map Deal.size := by
  refine ⟨⟨?_, ?_⟩, ?_⟩
  · rintro ⟨gas, ds, hds, -⟩
    exact lt_of_batchFills hds hbuys hsells
  · intro hsmall
    obtain ⟨ds, hds, hsum, hb, hs⟩ := batchFills_exact (i := 0) (j := 0) le_rfl hsmall hbuys hsells
      (fun q hq => hpos q (mem_append_left _ hq))
      (fun q hq => hpos q (mem_append_right _ hq))
    refine ⟨_, ds, hds, hsum, ?_, ?_⟩
    · intro i
      have hi := hb i
      rwa [if_pos (Nat.zero_le i), Nat.sub_zero] at hi
    · intro i
      have hi := hs i
      rwa [if_pos (Nat.zero_le i), Nat.sub_zero] at hi
  · intro _ _ _ _ _ _ _ h
    exact batchFills_of_executed h 0 0

namespace Dealing

/-- An entry at the oracle price. -/
def entry (size : Uint 128) : Queued := ⟨⟨.zero, size⟩, .ofNat 1, 0⟩

/-- The largest size there is, and one more. -/
def queue : List Queued := [entry ⟨2 ^ 128 - 1, by norm_num⟩, entry ⟨1, by norm_num⟩]

theorem queueVolume_queue : queueVolume queue = 2 ^ 128 := by norm_num [queue, entry]

theorem queue_pos : ∀ q ∈ queue, 0 < q.entry.size.val := by
  intro _ hq
  simp only [queue, mem_cons, not_mem_nil, or_false] at hq
  rcases hq with rfl | rfl <;> norm_num [entry]

end Dealing

open Dealing in
/-- Both sides add up to `2^128`: the first comparison is with zero, and the loop never ends. -/
theorem batch_of_two_pow_128_never_ends :
    (∀ q ∈ queue, 0 < q.entry.size.val) ∧ queueVolume queue = 2 ^ 128 ∧
      ¬ ∃ gas ds, batchFills gas ⟨2 ^ 128, by norm_num⟩ 0 0 queue queue = some ds := by
  refine ⟨queue_pos, queueVolume_queue, ?_⟩
  rintro ⟨_, _, h⟩
  have hlt := lt_of_batchFills h queueVolume_queue.ge queueVolume_queue.ge
  exact absurd hlt (lt_irrefl _)

open Dealing in
theorem batch_of_three_dealt : ∃ gas ds, batchFills gas ⟨3, by norm_num⟩ 0 0 queue queue = some ds ∧
      (ds.map fun d => d.size.val).sum = 3 := by
  have hvolume := queueVolume_queue
  obtain ⟨gas, ds, hds, hsum, -⟩ := (batchFills_exact_iff ⟨3, by norm_num⟩ queue queue
    (by rw [hvolume]; norm_num) (by rw [hvolume]; norm_num)
    (fun q hq => queue_pos q ((mem_append.mp hq).elim id id))).1.mpr (by norm_num)
  exact ⟨gas, ds, hds, hsum⟩

end HyperPax.PaxSpot
