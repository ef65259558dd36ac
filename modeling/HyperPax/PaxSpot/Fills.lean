/-
  PaxSpot/Fills.lean --- what one fill does.

  A fill moves four entries of the virtual balances (`Fill.leg`), rewrites two fill-quality
  scores, and is appended to the history; it touches no array and no market
  (`Booked`).  A fill against a resting order also moves the filled sizes of the two
  orders (`Matched`).  One iteration of the matching loop leaves everything alone, drops an
  exhausted entry, or is such a fill (`visit_cases`).
-/
import HyperPax.PaxSpot.Exchange

set_option autoImplicit false

namespace HyperPax.PaxSpot

open Lib Settlement List Function

/-! ## Balances -/

/-- What a fill adds to the virtual balance of a user in a token. -/
def Fill.leg (f : Fill) (user token : Address) : Int :=
  (if user = f.buyer ∧ token = f.baseToken then (f.size.val : Int) else 0) +
  (if user = f.buyer ∧ token = f.quoteToken then -f.quoteAmount.val - f.takerFee.val else 0) +
  (if user = f.seller ∧ token = f.baseToken then -(f.size.val : Int) else 0) +
  (if user = f.seller ∧ token = f.quoteToken then f.quoteAmount.val else 0)

/-- The part of the storage that fills leave alone: everything but orders, scores and positions,
with the list of cancelled orders. -/
def Exchange.frame (x : Exchange) : Engine × List Nat :=
  ({ x.toEngine with
      orders := fun _ => .unwritten
      poFQScores := fun _ => .zero
      poFQWeights := fun _ => .zero }, x.cancelled)

/-- `x'` is `x` after booking the fill `f` in a market; orders are not mentioned. -/
structure Booked (market : MarketState) (x : Exchange) (f : Fill) (x' : Exchange) : Prop where
  fills : x'.fills = x.fills ++ [f]
  frame : x'.frame = x.frame
  custody : x'.custody = (x.withSettlement x'.settlement).custody
  setup : x'.settlement.setup = x.settlement.setup
  collateral : x'.settlement.depositedCollateral = x.settlement.depositedCollateral
  virtualBalances : ∀ user token, (x'.settlement.virtualBalances user token).val =
    (x.settlement.virtualBalances user token).val + f.leg user token
  baseToken : f.baseToken = market.baseToken
  quoteToken : f.quoteToken = market.quoteToken
  quoteAmount : f.quoteAmount.val = (f.price.val * f.size.val).tdiv priceDecimals
  takerFee : (f.takerFee.val : Int) = |f.quoteAmount.val| * market.takerFeeBps.val / 10000

variable {size : Uint 128} {q price : Sint 256} {fee : Uint 256} {buyer seller : Address}
  {market : MarketState}

theorem quoteOf_ok (h : Exchange.quoteOf price size = .ok q) :
    q.val = (price.val * size.val).tdiv priceDecimals := by
  obtain ⟨_, hproduct, h⟩ := orRevert_bind_ok.mp h
  have hsize : size.val < 2 ^ 255 := size.lt_two_pow.trans (by norm_num)
  rw [Sint.check_eq_some.mp (orRevert_ok.mp h), Sint.mul?_eq_some.mp hproduct, int256_val hsize]

theorem computeFee_ok {feeBps : Uint 16} (h : Exchange.computeFee q feeBps = .ok fee) :
    (fee.val : Int) = |q.val| * feeBps.val / 10000 ∧ fee.val < 2 ^ 255 := by
  obtain ⟨_, habs, h⟩ := bind_ok.mp h
  obtain ⟨scaled, hscaled, h⟩ := orRevert_bind_ok.mp h
  cases h
  have hbound := scaled.lt_two_pow
  have hsmall : scaled.val / bpsDenominator < 2 ^ 255 := by
    rw [bpsDenominator]
    omega
  rw [Uint.truncate_of_lt (hsmall.trans (by norm_num))]
  refine ⟨?_, hsmall⟩
  rw [Uint.check_eq_some.mp hscaled, ← magnitude_ok habs, bpsDenominator]
  rfl

theorem settleLegs_ok {s s' : Settlement} {self : Address}
    (h : Exchange.settleLegs s self market buyer seller size q fee = .ok s')
    (hfee : fee.val < 2 ^ 255) :
    s'.setup = s.setup ∧ s'.depositedCollateral = s.depositedCollateral ∧
      ∀ user token, (s'.virtualBalances user token).val = (s.virtualBalances user token).val +
        ((if user = buyer ∧ token = market.baseToken then (size.val : Int) else 0) +
        (if user = buyer ∧ token = market.quoteToken then -q.val - fee.val else 0) +
        (if user = seller ∧ token = market.baseToken then -(size.val : Int) else 0) +
        (if user = seller ∧ token = market.quoteToken then q.val else 0)) := by
  obtain ⟨_, h₁, h⟩ := bind_ok.mp h
  obtain ⟨_, howed, h⟩ := orRevert_bind_ok.mp h
  obtain ⟨debit, hdebit, h⟩ := orRevert_bind_ok.mp h
  obtain ⟨_, h₂, h⟩ := bind_ok.mp h
  obtain ⟨given, hgiven, h⟩ := orRevert_bind_ok.mp h
  obtain ⟨_, h₃, h₄⟩ := bind_ok.mp h
  have hsize : (int256 size).val = size.val := int256_val (size.lt_two_pow.trans (by norm_num))
  have hdebitVal : debit.val = -q.val - fee.val := by
    rw [Sint.sub?_eq_some.mp hdebit, Sint.neg?_eq_some.mp howed, int256_val hfee]
  have hgivenVal : given.val = -(size.val : Int) := by rw [Sint.neg?_eq_some.mp hgiven, hsize]
  obtain ⟨hsetup₁, hcol₁, hv₁, -⟩ := updateVirtualBalance_ok h₁
  obtain ⟨hsetup₂, hcol₂, hv₂, -⟩ := updateVirtualBalance_ok h₂
  obtain ⟨hsetup₃, hcol₃, hv₃, -⟩ := updateVirtualBalance_ok h₃
  obtain ⟨hsetup₄, hcol₄, hv₄, -⟩ := updateVirtualBalance_ok h₄
  refine ⟨((hsetup₄.trans hsetup₃).trans hsetup₂).trans hsetup₁,
    ((hcol₄.trans hcol₃).trans hcol₂).trans hcol₁, ?_⟩
  intro _ _
  rw [hv₄, hv₃, hv₂, hv₁, hsize, hdebitVal, hgivenVal]
  ring

theorem settleFill_ok {x x' : Exchange} {marketId : MarketId} {buyOrderId sellOrderId : Nat}
    {oracle : Sint 256}
    (h : x.settleFill market marketId buyOrderId sellOrderId buyer seller size price oracle =
      .ok x') : ∃ f, Booked market x f x' ∧ x'.orders = x.orders ∧
      (f.marketId = marketId ∧ f.buyOrderId = buyOrderId ∧ f.sellOrderId = sellOrderId) ∧
      (f.buyer = buyer ∧ f.seller = seller) ∧
      (f.size = size ∧ f.price = price ∧ f.oraclePrice = oracle) := by
  obtain ⟨_, hq, h⟩ := bind_ok.mp h
  obtain ⟨_, hfee, h⟩ := bind_ok.mp h
  obtain ⟨_, hs, h⟩ := bind_ok.mp h
  cases h
  obtain ⟨hfeeVal, hfeeBound⟩ := computeFee_ok hfee
  obtain ⟨hsetup, hcoll, hvirt⟩ := settleLegs_ok hs hfeeBound
  refine ⟨_, ⟨rfl, rfl, rfl, hsetup, hcoll, ?_, rfl, rfl, quoteOf_ok hq, hfeeVal⟩, rfl,
    ⟨rfl, rfl, rfl⟩, ⟨rfl, rfl⟩, ⟨rfl, rfl, rfl⟩⟩
  intro user token
  exact hvirt user token

/-! ## Matching -/

/-- The fill is between an incoming order of the given side and a resting one. -/
def Fill.Between (f : Fill) (side : Side) (incomingId restingId : Nat) (taker maker : Address) :
    Prop :=
  match side with
  | .buy => (f.buyOrderId = incomingId ∧ f.sellOrderId = restingId) ∧
      f.buyer = taker ∧ f.seller = maker
  | .sell => (f.buyOrderId = restingId ∧ f.sellOrderId = incomingId) ∧
      f.buyer = maker ∧ f.seller = taker

/-- One iteration of the matching loop that filled: from `x` with `remaining` of the incoming
order to `x'` with `left` of it. -/
structure Matched (incomingId restingId : Nat) (oraclePrice : Sint 256) (market : MarketState)
    (x : Exchange) (remaining : Uint 128) (f : Fill) (x' : Exchange) (left : Uint 128) :
    Prop where
  booked : Booked market x f x'
  between : f.Between (x.orders incomingId).side incomingId restingId
    (x.orders incomingId).trader (x.orders restingId).trader
  marketId : f.marketId = (x.orders incomingId).marketId
  price : f.price = resolveOffset oraclePrice (x.orders restingId).offsetBps
  oraclePrice : f.oraclePrice = oraclePrice
  active : (x.orders restingId).active
  unfilled : (x.orders restingId).filledSize.val < (x.orders restingId).size.val
  size : f.size.val = min remaining.val
    ((x.orders restingId).size.val - (x.orders restingId).filledSize.val)
  left : left.val + f.size.val = remaining.val
  incoming : ∃ n : Uint 128, n.val = (x.orders incomingId).filledSize.val + f.size.val ∧
    x'.orders incomingId = { x.orders incomingId with filledSize := n }
  resting : ∃ n : Uint 128, n.val = (x.orders restingId).filledSize.val + f.size.val ∧
    x'.orders restingId = { x.orders restingId with
      filledSize := n
      active := decide (n.val < (x.orders restingId).size.val) }
  others : ∀ id, id ≠ incomingId → id ≠ restingId → x'.orders id = x.orders id

namespace Exchange

variable {x x' : Exchange} {incomingId restingId : Nat} {oracle price incomingPrice : Sint 256}
  {market : MarketState} {fillSize remaining left : Uint 128}

/-- A fill writes the two filled sizes, and is booked. -/
theorem executeFill_ok (hne : incomingId ≠ restingId)
    (h : x.executeFill incomingId restingId fillSize price oracle market = .ok x') :
    ∃ f, Booked market x f x' ∧
      (f.marketId = (x.orders incomingId).marketId ∧ f.size = fillSize ∧ f.price = price ∧
        f.oraclePrice = oracle) ∧
      f.Between (x.orders incomingId).side incomingId restingId (x.orders incomingId).trader
        (x.orders restingId).trader ∧
      ∃ n m : Uint 128, (n.val = (x.orders incomingId).filledSize.val + fillSize.val ∧
          m.val = (x.orders restingId).filledSize.val + fillSize.val) ∧
        x'.orders = update (update x.orders incomingId
          { x.orders incomingId with filledSize := n }) restingId
          { x.orders restingId with filledSize := m } := by
  obtain ⟨n, hn, h⟩ := orRevert_bind_ok.mp h
  obtain ⟨m, hm, h⟩ := orRevert_bind_ok.mp h
  have hsame : (x.setFilled incomingId n).orders restingId = x.orders restingId :=
    update_of_ne hne.symm _ _
  have hfilled : ((x.setFilled incomingId n).setFilled restingId m).orders =
      update (update x.orders incomingId { x.orders incomingId with filledSize := n }) restingId
        { x.orders restingId with filledSize := m } := by
    rw [← hsame]
    rfl
  rw [hsame] at hm
  have hsizes := And.intro (Uint.add?_eq_some.mp hn) (Uint.add?_eq_some.mp hm)
  cases hside : (x.orders incomingId).side with
  | buy =>
    rw [hside] at h
    obtain ⟨f, hbooked, horders, ⟨hmarket, hbuy, hsell⟩, ⟨hbuyer, hseller⟩, hrest⟩ :=
      settleFill_ok h
    refine ⟨f, ⟨hbooked.fills, hbooked.frame, hbooked.custody, hbooked.setup, hbooked.collateral,
      hbooked.virtualBalances, hbooked.baseToken, hbooked.quoteToken, hbooked.quoteAmount,
      hbooked.takerFee⟩, ⟨hmarket, hrest⟩, ?_, n, m, hsizes, horders.trans hfilled⟩
    exact ⟨⟨hbuy, hsell⟩, hbuyer, hseller.trans (congrArg Order.trader hsame)⟩
  | sell =>
    rw [hside] at h
    obtain ⟨f, hbooked, horders, ⟨hmarket, hbuy, hsell⟩, ⟨hbuyer, hseller⟩, hrest⟩ :=
      settleFill_ok h
    refine ⟨f, ⟨hbooked.fills, hbooked.frame, hbooked.custody, hbooked.setup, hbooked.collateral,
      hbooked.virtualBalances, hbooked.baseToken, hbooked.quoteToken, hbooked.quoteAmount,
      hbooked.takerFee⟩, ⟨hmarket, hrest⟩, ?_, n, m, hsizes, horders.trans hfilled⟩
    exact ⟨⟨hbuy, hsell⟩, hbuyer.trans (congrArg Order.trader hsame), hseller⟩

theorem minUint_val {w : Nat} (a b : Uint w) : (minUint a b).val = min a.val b.val := by
  unfold minUint
  split <;> omega

theorem closeIfFull_orders (x : Exchange) (id : Nat) (h : (x.orders id).active) :
    (x.closeIfFull id).orders = update x.orders id { x.orders id with
        active := decide ((x.orders id).filledSize.val < (x.orders id).size.val) } := by
  unfold closeIfFull
  split
  · rename_i hfull
    rw [decide_eq_false (not_lt.mpr hfull)]
    rfl
  · rename_i hopen
    rw [decide_eq_true (not_le.mp hopen), ← h, update_eq_self]

theorem closeIfFull_booked {f : Fill} {y : Exchange} (id : Nat) (h : Booked market x f y) :
    Booked market x f (y.closeIfFull id) := by
  unfold closeIfFull
  split
  · exact ⟨h.fills, h.frame, h.custody, h.setup, h.collateral, h.virtualBalances, h.baseToken,
      h.quoteToken, h.quoteAmount, h.takerFee⟩
  · exact h

theorem visit_cases (hne : incomingId ≠ restingId)
    (h : visit incomingId incomingPrice oracle market (x, remaining) restingId =
      .ok (x', left)) : ((remaining.val = 0 ∨ (x.orders restingId).active = false ∨
        ¬ PricesCross (x.orders incomingId).side incomingPrice
          (resolveOffset oracle (x.orders restingId).offsetBps)) ∧ x' = x ∧ left = remaining) ∨
    ((x.orders restingId).active ∧
      (x.orders restingId).filledSize.val = (x.orders restingId).size.val ∧
      x' = x.deactivate restingId ∧ left = remaining) ∨
    (0 < remaining.val ∧ PricesCross (x.orders incomingId).side incomingPrice
        (resolveOffset oracle (x.orders restingId).offsetBps) ∧
      ∃ f, Matched incomingId restingId oracle market x remaining f x' left) := by
  unfold visit at h
  dsimp only at h
  split at h
  · rename_i hskip
    cases h
    exact .inl ⟨hskip.imp id .inl, rfl, rfl⟩
  rename_i hlive
  push Not at hlive
  have hactive : (x.orders restingId).active := by simpa using hlive.2
  obtain ⟨_, hrem, h⟩ := orRevert_bind_ok.mp h
  have hsub := Uint.sub?_eq_some.mp hrem
  split at h
  · rename_i hzero
    cases h
    exact .inr (.inl ⟨hactive, by omega, rfl, rfl⟩)
  rename_i hpos
  split at h
  · rename_i hcross
    obtain ⟨y, hfill, h⟩ := bind_ok.mp h
    obtain ⟨_, hrest, h⟩ := orRevert_bind_ok.mp h
    cases h
    obtain ⟨f, hbooked, ⟨hmarket, hsize, hprice, horacle⟩, hbetween, n, m, ⟨hn, hm⟩, horders⟩ :=
      executeFill_ok hne hfill
    have hfillSize : f.size.val = min remaining.val
        ((x.orders restingId).size.val - (x.orders restingId).filledSize.val) := by
      rw [hsize, minUint_val]
      omega
    have hresting : y.orders restingId = { x.orders restingId with filledSize := m } := by
      rw [horders, update_self]
    have hclosed := closeIfFull_orders y restingId (by rw [hresting]; exact hactive)
    refine .inr (.inr ⟨by omega, hcross, f, closeIfFull_booked restingId hbooked, hbetween,
      hmarket, hprice, horacle, hactive, by omega, hfillSize, ?_, ?_, ?_, ?_⟩)
    · have hleft := Uint.sub?_eq_some.mp hrest
      rw [hsize]
      exact hleft
    · refine ⟨n, by rw [hsize]; exact hn, ?_⟩
      rw [hclosed, update_of_ne hne, horders, update_of_ne hne, update_self]
    · refine ⟨m, by rw [hsize]; exact hm, ?_⟩
      rw [hclosed, update_self, hresting]
    · intro _ hinc hother
      rw [hclosed, update_of_ne hother, horders, update_of_ne hother, update_of_ne hinc]
  · rename_i hcross
    cases h
    exact .inl ⟨.inr (.inr hcross), rfl, rfl⟩

theorem walk_invariant {ids : List Nat} {I : List Nat → Exchange → Uint 128 → Prop}
    (h : ids.foldlM (visit incomingId incomingPrice oracle market) (x, remaining) =
      .ok (x', left)) (hnew : incomingId ∉ ids) (hstart : I [] x remaining)
    (hskip : ∀ done id rest y r, ids = done ++ id :: rest → I done y r →
      (r.val = 0 ∨ (y.orders id).active = false ∨
        ¬ PricesCross (y.orders incomingId).side incomingPrice
          (resolveOffset oracle (y.orders id).offsetBps)) → I (done ++ [id]) y r)
    (hdrop : ∀ done id rest y r, ids = done ++ id :: rest → I done y r →
      (y.orders id).active → (y.orders id).filledSize.val = (y.orders id).size.val →
      I (done ++ [id]) (y.deactivate id) r)
    (hfill : ∀ done id rest y r f y' r', ids = done ++ id :: rest → I done y r → 0 < r.val →
      PricesCross (y.orders incomingId).side incomingPrice
        (resolveOffset oracle (y.orders id).offsetBps) →
      Matched incomingId id oracle market y r f y' r' → I (done ++ [id]) y' r') :
    I ids x' left := by
  refine foldlM_invariant (I := fun done s => I done s.1 s.2) h hstart ?_
  rintro done id rest ⟨y, r⟩ ⟨y', r'⟩ hids hI hvisit
  have hne : incomingId ≠ id := by
    rintro rfl
    exact hnew (by rw [hids]; simp)
  rcases visit_cases hne hvisit with ⟨hreason, rfl, rfl⟩ | ⟨hactive, hfull, rfl, rfl⟩ |
    ⟨hpos, hcross, f, hmatched⟩
  · exact hskip done id rest _ _ hids hI hreason
  · exact hdrop done id rest _ _ hids hI hactive hfull
  · exact hfill done id rest y r f y' r' hids hI hpos hcross hmatched

end Exchange

/-! ## Several fills -/

/-- The total size of some fills. -/
def fillVolume (F : List Fill) : Nat := (F.map fun f => f.size.val).sum

@[simp] theorem fillVolume_nil : fillVolume [] = 0 := rfl

variable (id : Nat) (f : Fill) (F G : List Fill)

@[simp] theorem fillVolume_cons : fillVolume (f :: F) = f.size.val + fillVolume F := by
  simp [fillVolume]

@[simp] theorem fillVolume_append : fillVolume (F ++ G) = fillVolume F + fillVolume G := by
  simp [fillVolume]

/-- What some fills traded for one order. -/
def traded (id : Nat) (F : List Fill) : Nat :=
  fillVolume (F.filter fun f => f.buyOrderId = id ∨ f.sellOrderId = id)

@[simp] theorem traded_nil : traded id [] = 0 := rfl

@[simp] theorem traded_append : traded id (F ++ G) = traded id F + traded id G := by simp [traded]

theorem traded_singleton :
    traded id [f] = if f.buyOrderId = id ∨ f.sellOrderId = id then f.size.val else 0 := by
  unfold traded
  split <;> simp [*]

theorem traded_of_spared {id : Nat} {F : List Fill}
    (h : ∀ f ∈ F, f.buyOrderId ≠ id ∧ f.sellOrderId ≠ id) : traded id F = 0 := by
  have hnone : F.filter (fun f => f.buyOrderId = id ∨ f.sellOrderId = id) = [] := by
    rw [filter_eq_nil_iff]
    intro f hf htouch
    rcases of_decide_eq_true htouch with hid | hid
    · exact (h f hf).1 hid
    · exact (h f hf).2 hid
  rw [traded, hnone]
  rfl

/-- `x'` is `x` after booking the fills `F` of one market, in order. -/
structure BookedAll (market : MarketState) (x : Exchange) (F : List Fill) (x' : Exchange) :
    Prop where
  fills : x'.fills = x.fills ++ F
  frame : x'.frame = x.frame
  custody : x'.custody = (x.withSettlement x'.settlement).custody
  setup : x'.settlement.setup = x.settlement.setup
  collateral : x'.settlement.depositedCollateral = x.settlement.depositedCollateral
  virtualBalances : ∀ user token, (x'.settlement.virtualBalances user token).val =
    (x.settlement.virtualBalances user token).val + (F.map fun f => f.leg user token).sum
  tokens : ∀ f ∈ F, f.baseToken = market.baseToken ∧ f.quoteToken = market.quoteToken
  amounts : ∀ f ∈ F, f.quoteAmount.val = (f.price.val * f.size.val).tdiv priceDecimals ∧
    (f.takerFee.val : Int) = |f.quoteAmount.val| * market.takerFeeBps.val / 10000

namespace BookedAll

variable {market : MarketState} {x y z : Exchange} {F : List Fill} {f : Fill}

theorem nil (market : MarketState) (x : Exchange) : BookedAll market x [] x where
  fills := (append_nil _).symm
  frame := rfl
  custody := rfl
  setup := rfl
  collateral := rfl
  virtualBalances := fun _ _ => (add_zero _).symm
  tokens := fun _ hf => absurd hf not_mem_nil
  amounts := fun _ hf => absurd hf not_mem_nil

theorem single (h : Booked market x f y) : BookedAll market x [f] y where
  fills := h.fills
  frame := h.frame
  custody := h.custody
  setup := h.setup
  collateral := h.collateral
  virtualBalances _ _ := by rw [h.virtualBalances, map_singleton, sum_singleton]
  tokens _ hg := by
    rw [mem_singleton.mp hg]
    exact ⟨h.baseToken, h.quoteToken⟩
  amounts _ hg := by
    rw [mem_singleton.mp hg]
    exact ⟨h.quoteAmount, h.takerFee⟩

theorem append {G : List Fill} (h : BookedAll market x F y) (h' : BookedAll market y G z) :
    BookedAll market x (F ++ G) z where
  fills := by rw [h'.fills, h.fills, append_assoc]
  frame := h'.frame.trans h.frame
  custody := by
    rw [h'.custody]
    exact congrArg (fun c : VaultRun => { c with vault := { c.vault with
      settlement := z.settlement } }) h.custody
  setup := h'.setup.trans h.setup
  collateral := h'.collateral.trans h.collateral
  virtualBalances _ _ := by
    rw [h'.virtualBalances, h.virtualBalances, map_append, sum_append]
    ring
  tokens g hg := (mem_append.mp hg).elim (h.tokens g) (h'.tokens g)
  amounts g hg := (mem_append.mp hg).elim (h.amounts g) (h'.amounts g)

theorem snoc (h : BookedAll market x F y) (h' : Booked market y f z) :
    BookedAll market x (F ++ [f]) z := h.append (.single h')

theorem modifyOrder (h : BookedAll market x F y) (id : Nat) (g : Order → Order) :
    BookedAll market x F (y.modifyOrder id g) :=
  ⟨h.fills, h.frame, h.custody, h.setup, h.collateral, h.virtualBalances, h.tokens, h.amounts⟩

theorem cons (h : Booked market x f y) (h' : BookedAll market y F z) :
    BookedAll market x (f :: F) z := (single h).append h'

end BookedAll

end HyperPax.PaxSpot
