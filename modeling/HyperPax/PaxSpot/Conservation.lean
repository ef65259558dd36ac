/-
  PaxSpot/Conservation.lean --- where the virtual balances of a token add up to.

  A fill moves the base amount and the quote amount between its two traders, and takes the
  taker fee from the buyer.  `fastSettle` gives its fee to the treasury; the fee of a
  fill is given to nobody.  So the balances of a token are what was deposited and not
  withdrawn, less all the fees of fills quoted in it (`accounted_of_path`).
-/
import HyperPax.PaxSpot.Executions

set_option autoImplicit false

namespace HyperPax.PaxSpot

open Lib List

/-! ## Totals -/

/-- The virtual balances of all accounts in a token. -/
noncomputable def Settlement.total (s : Settlement) (token : Address) : Int :=
  ∑ᶠ user, (s.virtualBalances user token).val

/-- All deposits of a token so far, less all withdrawals. -/
noncomputable def VaultRun.netDeposits (r : VaultRun) (token : Address) : Int :=
  ∑ᶠ user, (r.deposited user token : Int) - ∑ᶠ user, (r.withdrawn user token : Int)

/-- The taker fees of some fills that were quoted in a token. -/
def feesIn (token : Address) (F : List Fill) : Nat :=
  ((F.filter fun f => f.quoteToken = token).map fun f => f.takerFee.val).sum

variable (F : List Fill) (f : Fill) (token : Address)

@[simp] theorem feesIn_nil : feesIn token [] = 0 := rfl

@[simp] theorem feesIn_append (F G : List Fill) :
    feesIn token (F ++ G) = feesIn token F + feesIn token G := by
  simp [feesIn]

theorem feesIn_cons (f : Fill) (F : List Fill) : feesIn token (f :: F) =
      (if token = f.quoteToken then f.takerFee.val else 0) + feesIn token F := by
  unfold feesIn
  by_cases h : token = f.quoteToken
  · simp [h]
  · simp [h, Ne.symm h]

theorem finsum_leg : ∑ᶠ user, f.leg user token =
      -if token = f.quoteToken then (f.takerFee.val : Int) else 0 := by
  unfold Fill.leg
  rw [finsum_add_distrib (Set.toFinite _) (Set.toFinite _),
    finsum_add_distrib (Set.toFinite _) (Set.toFinite _),
    finsum_add_distrib (Set.toFinite _) (Set.toFinite _), finsum_point, finsum_point, finsum_point,
    finsum_point]
  split <;> split <;> ring

theorem finsum_legs : ∑ᶠ user, (F.map fun f => f.leg user token).sum = -(feesIn token F : Int) := by
  induction F with
  | nil => simp
  | cons _ _ ih =>
    simp only [map_cons, sum_cons]
    rw [finsum_add_distrib (Set.toFinite _) (Set.toFinite _), ih, finsum_leg, feesIn_cons]
    split <;> push_cast <;> ring

/-! ## Calls of the settlement engine -/

/-- Deposits and withdrawals are of amounts that a cast to `int256` leaves as they are. -/
def VaultOp.SmallAmount : VaultOp → Prop
  | .deposit _ _ _ amount => amount.val < 2 ^ 255
  | .withdraw _ _ _ amount => amount.val < 2 ^ 255
  | _ => True

instance (op : VaultOp) : Decidable op.SmallAmount :=
  match op with
  | .deposit .. | .withdraw .. => inferInstanceAs (Decidable (_ < _))
  | .transferToken .. | .call _ => .isTrue trivial

theorem Settlement.total_of_call {s s' : Settlement} {c : SettlementCall}
    (hc : ∀ sender user token delta, c ≠ .updateVirtualBalance sender user token delta)
    (h : s.call c = .ok s') (token : Address) : s'.total token = s.total token := by
  unfold total
  rcases c.cases with ⟨_, _, _, _, hupdate⟩ | ⟨_, rfl⟩ | ⟨_, _, rfl⟩ | hadmin
  · exact absurd hupdate (hc _ _ _ _)
  · obtain ⟨-, -, hvirt, -⟩ := settleEpoch_ok h
    rw [hvirt]
  · -- the fee moves from the user to the treasury
    obtain ⟨-, -, -, -, hvirt⟩ := fastSettle_ok h
    have hdebit : ∀ u, (s'.virtualBalances u token).val = (s.virtualBalances u token).val + _ :=
      fun u => (hvirt u token).trans (add_assoc _ _ _)
    rw [finsum_congr hdebit, finsum_add_distrib (Set.toFinite _) (Set.toFinite _),
      finsum_add_distrib (Set.toFinite _) (Set.toFinite _), finsum_point, finsum_point]
    split <;> ring
  · obtain ⟨hpositions, -⟩ := call_administrative hadmin h
    have hvirt : s'.virtualBalances = s.virtualBalances := congrArg (fun p => p.2.1) hpositions
    rw [hvirt]

theorem finsum_write {m : Address → Address → Nat} {user token : Address} (n : Nat) (t : Address) :
    ∑ᶠ u, ((write m user token (m user token + n) u t : Nat) : Int) =
      ∑ᶠ u, (m u t : Int) + if t = token then (n : Int) else 0 :=
  finsum_shift_at (write_shift (fun k : Nat => (k : Int)) m (by push_cast; rfl)) t

theorem VaultRun.total_of_step {r r' : VaultRun} {op : VaultOp}
    (hop : ∀ sender user token delta, op ≠ .call (.updateVirtualBalance sender user token delta))
    (hsmall : op.SmallAmount) (h : r.step op = some r') (token : Address) :
    r'.vault.settlement.total token - r'.netDeposits token =
      r.vault.settlement.total token - r.netDeposits token := by
  unfold netDeposits
  rcases VaultRun.step_cases h with
    ⟨_, sender, t, _, rfl, -, hdeposit, hdep, hwithdrawn⟩ |
    ⟨_, sender, t, _, rfl, -, hwithdraw, hdep, hwithdrawn⟩ |
    ⟨c, rfl, hcall, -, hdep, hwithdrawn⟩ |
    ⟨t, _, _, _, -, -, -, hsettlement, -, hdep, hwithdrawn⟩
  · obtain ⟨-, -, -, -, -, -, hvirt⟩ := Vault.deposit_ok hdeposit
    rw [int256_val hsmall] at hvirt
    unfold Settlement.total
    rw [finsum_shift_at hvirt, hdep, finsum_write, hwithdrawn]
    ring
  · obtain ⟨-, -, -, -, -, -, -, hvirt⟩ := Vault.withdraw_ok hwithdraw
    rw [int256_val hsmall] at hvirt
    unfold Settlement.total
    rw [finsum_shift_at hvirt, hwithdrawn, finsum_write, hdep]
    split <;> ring
  · have hc : ∀ sender user t delta, c ≠ .updateVirtualBalance sender user t delta := by
      rintro sender user t delta rfl
      exact hop sender user t delta rfl
    rw [Settlement.total_of_call hc hcall, hdep, hwithdrawn]
  · rw [hsettlement, hdep, hwithdrawn]

/-! ## Runs -/

namespace Exchange

variable {x x' : Exchange} {l : Label} {s : Settlement} {self owner : Address}

/-- Deposits and withdrawals of a run are of amounts below `2^255`. -/
def SmallAmounts (_ : Exchange) : Label → Prop
  | .custody op => op.SmallAmount
  | _ => True

instance (x : Exchange) (l : Label) : Decidable (x.SmallAmounts l) := by
  unfold SmallAmounts
  split <;> infer_instance

/-- The fee on a size at a price rounds down to nothing. -/
def Dust (market : MarketState) (price : Sint 256) (size : Nat) : Prop :=
  |(price.val * size).tdiv priceDecimals| * market.takerFeeBps.val < 10000

/-- A step whose fills, if any, are free of fees: an order of a continuous market that crosses an
active resting one is dust at its price, as the volume of a clearing is; deposits and withdrawals
are below `2^255`. -/
def FeeFree (x : Exchange) : Label → Prop
  | .placeOrder ctx trader m side orderType offsetBps size =>
    (x.marketStates m).mode = .continuous → ∀ oraclePrice ∈ ctx.price m,
      ∀ id ∈ x.book side.opposite m, (x.orders id).active →
        PricesCross side
          (incomingAbsPrice (newOrder ctx x.nextOrderId trader m side orderType offsetBps size)
            oraclePrice) (resolveOffset oraclePrice (x.orders id).offsetBps) →
        Dust (x.marketStates m) (resolveOffset oraclePrice (x.orders id).offsetBps) size.val
  | .clearBatch ctx _ m => ∀ oraclePrice ∈ ctx.price m,
      Dust (x.marketStates m) (x.clearing oraclePrice m).price
        (x.clearing oraclePrice m).matchedVolume.val
  | .custody op => op.SmallAmount
  | _ => True

/-- The balances of every token are what was deposited and not withdrawn. -/
def Conserved (x : Exchange) : Prop :=
  ∀ token, x.settlement.total token = x.custody.netDeposits token

/-- The balances of every token and the fees of its fills are what was deposited and not
withdrawn. -/
def Accounted (x : Exchange) : Prop :=
  ∀ token, x.settlement.total token + feesIn token x.fills = x.custody.netDeposits token

/-- The fee of the fill rounds down to nothing. -/
def Feeless (x : Exchange) (f : Fill) : Prop :=
  |f.quoteAmount.val| * (x.marketStates f.marketId).takerFeeBps.val < 10000
deriving Decidable

theorem MovedByFills.total (h : MovedByFills x x') (token : Address) :
    x'.settlement.total token = x.settlement.total token - feesIn token (newFills x x') := by
  unfold Settlement.total
  rw [finsum_congr fun user => h.virtualBalances user token,
    finsum_add_distrib (Set.toFinite _) (Set.toFinite _), finsum_legs]
  ring

theorem Accounted.step (hx : x.WellFormed) (h : x.Accounted) (hok : x.SmallAmounts l)
    (hstep : x.step l = some x') : x'.Accounted := by
  intro token
  have hbefore := h token
  rcases movedByFills_of_step hx hstep with hmoved | ⟨_, rfl, hop, hcustody, hfills⟩
  · have hnet : x'.custody.netDeposits token = x.custody.netDeposits token := by
      rw [hmoved.custody]
      rfl
    rw [hmoved.total, (newFills_cases hx hstep).1, feesIn_append, hnet]
    omega
  · have hmove := VaultRun.total_of_step hop hok hcustody token
    rw [hfills]
    unfold Exchange.settlement at hbefore ⊢
    omega

theorem accounted_start (self owner : Address) (hs : ∀ u t, (s.virtualBalances u t).val = 0)
    (tokens : Address → Ledger) : (start self owner (.start s tokens)).Accounted := by
  intro token
  have htotal : s.total token = 0 := by
    unfold Settlement.total
    rw [finsum_congr fun u => hs u token, finsum_zero]
  have hnet : (VaultRun.start s tokens).netDeposits token = 0 := by
    unfold VaultRun.netDeposits VaultRun.start
    simp
  change s.total token + 0 = (VaultRun.start s tokens).netDeposits token
  rw [htotal, hnet, add_zero]

theorem accounted_of_path (hs : ∀ u t, (s.virtualBalances u t).val = 0) {tokens : Address → Ledger}
    (h : Path Exchange.step SmallAmounts (start self owner (.start s tokens)) x) : x.Accounted := by
  have hboth : x.WellFormed ∧ x.Accounted :=
    h.invariant (I := fun x => x.WellFormed ∧ x.Accounted)
      (fun _ _ _ hI hok hstep => ⟨hI.1.step hstep, .step hI.1 hI.2 hok hstep⟩)
      ⟨wellFormed_start self owner _, accounted_start self owner hs tokens⟩
  exact hboth.2

variable {f : Fill}

theorem BilledBy.takerFee_eq_zero (h : x.BilledBy f) : f.takerFee.val = 0 ↔ x.Feeless f := by
  have hfee := h.takerFee
  unfold Feeless
  omega

variable {F : List Fill}

theorem feesIn_eq_zero : (∀ token, feesIn token F = 0) ↔ ∀ f ∈ F, f.takerFee.val = 0 := by
  simp only [feesIn, sum_eq_zero_iff, mem_map, mem_filter, decide_eq_true_eq]
  constructor
  · intro h f hf
    exact h f.quoteToken _ ⟨f, ⟨hf, rfl⟩, rfl⟩
  · rintro h _ _ ⟨f, ⟨hf, -⟩, rfl⟩
    exact h f hf

theorem Dust.mono {market : MarketState} {price : Sint 256} {n k : Nat} (h : Dust market price k)
    (hle : n ≤ k) : Dust market price n := by
  have habs : ∀ j : Nat, |(price.val * (j : Int)).tdiv priceDecimals| =
      ((price.val.natAbs * j / priceDecimals.natAbs : Nat) : Int) := by
    intro _
    rw [Int.abs_eq_natAbs, Int.natAbs_tdiv, Int.natAbs_mul, Int.natAbs_natCast]
    rfl
  unfold Dust at h ⊢
  rw [habs] at h ⊢
  refine lt_of_le_of_lt (mul_le_mul_of_nonneg_right ?_ (Int.natCast_nonneg _)) h
  exact Int.ofNat_le.mpr (Nat.div_le_div_right (Nat.mul_le_mul_left _ hle))

theorem size_le_fillVolume (hf : f ∈ F) : f.size.val ≤ fillVolume F :=
  le_sum_of_mem (mem_map_of_mem hf)

theorem feeless_of_step (hx : x.WellFormed) (hok : x.FeeFree l) (h : x.step l = some x') :
    ∀ f ∈ newFills x x', x.Feeless f := by
  intro f hf
  have hbilled := billedBy_of_step hx h f hf
  suffices hdust : Dust (x.marketStates f.marketId) f.price f.size.val by
    unfold Feeless
    rw [hbilled.quoteAmount]
    exact hdust
  obtain ⟨-, hcases⟩ := newFills_cases hx h
  rcases hcases with
    ⟨_, _, m, _, _, _, _, oracle, _, _, rfl, ⟨-, hmode, hprice⟩, hF, -⟩ |
    ⟨_, _, m, oracle, _, rfl, ⟨-, hprice⟩, hF, -⟩ | ⟨hnone, -⟩
  · obtain ⟨id, hid, htaken⟩ := hF.taken f hf
    have hne : id ≠ x.nextOrderId := by
      rintro rfl
      exact hx.not_listed le_rfl (.inl ⟨_, _, hid⟩)
    have hm : f.marketId = m := by
      rw [htaken.marketId, written_self]
      rfl
    have hactive := htaken.active
    have hcrosses := htaken.crosses
    have hfprice := htaken.price
    rw [written_of_ne hne] at hactive hfprice
    rw [written_self, hfprice] at hcrosses
    have hspent := hF.spent
    rw [hm, hfprice]
    refine (hok hmode oracle hprice id hid hactive hcrosses).mono ?_
    exact (size_le_fillVolume hf).trans (by omega)
  · obtain ⟨hm, hfprice, -⟩ := hF.price f hf
    rw [hm, hfprice]
    refine (hok oracle hprice).mono ?_
    rw [← hF.dealt]
    exact size_le_fillVolume hf
  · rw [hnone] at hf
    cases hf

theorem Feeless.step (hf : x.Feeless f) (hbilled : x.BilledBy f) (hx : x.WellFormed)
    (h : x.step l = some x') : x'.Feeless f := by
  rw [← hbilled.takerFee_eq_zero] at hf
  rw [← (hbilled.step hx h).takerFee_eq_zero]
  exact hf

theorem feeless_of_path {custody : VaultRun}
    (h : Path Exchange.step FeeFree (start self owner custody) x) : ∀ f ∈ x.fills, x.Feeless f := by
  have hinv : Reachable self owner custody x ∧ ∀ f ∈ x.fills, x.Feeless f := by
    refine h.invariant (I := fun x => Reachable self owner custody x ∧
      ∀ f ∈ x.fills, x.Feeless f) ?_ ⟨.refl, fun _ hf => absurd hf not_mem_nil⟩
    rintro _ l _ ⟨hy, hfeeless⟩ hok hstep
    have hwf := hy.wellFormed
    refine ⟨.tail l hy trivial hstep, fun f hf => ?_⟩
    rw [(newFills_cases hwf hstep).1] at hf
    rcases mem_append.mp hf with hf | hf
    · exact (hfeeless f hf).step (hy.billedBy f hf) hwf hstep
    · exact (feeless_of_step hwf hok hstep f hf).step (billedBy_of_step hwf hstep f hf) hwf hstep
  exact hinv.2

/-- In a run with amounts below `2^255` the balances are conserved exactly as long as every fill was
so small, or its market's rate so low, that its fee rounded down to nothing; so they are in every
run of fee-free steps. -/
theorem conserved_iff_feeless {engine engineOwner self owner treasury : Address}
    {block epochLength : Nat} {s : Settlement}
    (hdeploy : Settlement.deploy self owner block epochLength treasury = .ok s)
    {tokens : Address → Ledger} :
    (Path Exchange.step SmallAmounts (start engine engineOwner (.start s tokens)) x →
      (x.Conserved ↔ ∀ f ∈ x.fills, x.Feeless f)) ∧
    (Path Exchange.step FeeFree (start engine engineOwner (.start s tokens)) x → x.Conserved) := by
  have hiff : Path Exchange.step SmallAmounts (start engine engineOwner (.start s tokens)) x →
      (x.Conserved ↔ ∀ f ∈ x.fills, x.Feeless f) := by
    intro h
    have haccounted := accounted_of_path (Settlement.deploy_ok hdeploy).2.1 h
    have hbilled := Reachable.billedBy (h.mono fun _ _ _ => trivial)
    have hfees : x.Conserved ↔ ∀ token, feesIn token x.fills = 0 := by
      refine forall_congr' fun token => ?_
      have htoken := haccounted token
      omega
    rw [hfees, feesIn_eq_zero]
    exact forall₂_congr fun f hf => (hbilled f hf).takerFee_eq_zero
  refine ⟨hiff, fun h => (hiff (h.mono fun t l hok => ?_)).mpr (feeless_of_path h)⟩
  cases l <;> first | exact trivial | exact hok

open SpotRun in
/-- Alice buys 5 at 100 with a fee of 1%: she pays 505, Bob gets 500, and the fee is nowhere. -/
theorem taker_fee_lost : ∃ x, Path Exchange.step SmallAmounts fresh x ∧
      ((x.settlement.virtualBalances alice quote).val = -505 ∧
        (x.settlement.virtualBalances bob quote).val = 500 ∧
        (x.settlement.virtualBalances x.settlement.treasury quote).val = 0) ∧
      x.settlement.total quote = x.custody.netDeposits quote - 5 ∧ ¬ x.Conserved := by
  have hrun : ∃ x, Path Exchange.step SmallAmounts fresh x ∧
      ((x.settlement.virtualBalances alice quote).val = -505 ∧
        (x.settlement.virtualBalances bob quote).val = 500 ∧
        (x.settlement.virtualBalances x.settlement.treasury quote).val = 0) ∧
      feesIn quote x.fills = 5 :=
    exists_path fresh
      (opening .continuous 100 ++ [limit bob .sell 0 5, limit alice .buy 0 5]) (by decide +kernel)
  obtain ⟨x, hpath, hbals, hfees⟩ := hrun
  have hquote := accounted_of_path (s := CustodyRun.settlement) (fun _ _ => rfl) hpath quote
  rw [hfees] at hquote
  refine ⟨x, hpath, hbals, by omega, fun hconserved => ?_⟩
  have hclaimed := hconserved quote
  omega

open SpotRun in
/-- Without a fee rate trading conserves balances. -/
theorem conserved_without_fee : ∃ x, Path Exchange.step SmallAmounts fresh x ∧
      (x.settlement.virtualBalances alice quote).val = -500 ∧ x.Conserved := by
  have hrun : ∃ x, Path Exchange.step SmallAmounts fresh x ∧
      (x.settlement.virtualBalances alice quote).val = -500 ∧ ∀ f ∈ x.fills, x.Feeless f :=
    exists_path fresh
      (opening .continuous 0 ++ [limit bob .sell 0 5, limit alice .buy 0 5]) (by decide +kernel)
  obtain ⟨x, hpath, hbal, hfeeless⟩ := hrun
  have hdeploy : Settlement.deploy CustodyRun.self CustodyRun.owner 0 5 CustodyRun.treasury =
      .ok CustodyRun.settlement := rfl
  exact ⟨x, hpath, hbal, ((conserved_iff_feeless hdeploy).1 hpath).mpr hfeeless⟩

/-! ## What the contract holds -/

theorem custodial_of_booked {market : MarketState} (hx : Custodial x.custody)
    (h : BookedAll market x F x') : Custodial x'.custody := by
  have hself : x'.settlement.self = x.settlement.self := congrArg Setup.self h.setup
  have hcov : ∀ t, ∑ᶠ u, ((x.settlement.depositedCollateral u t).val : Int) ≤
      x.custody.vault.tokens t x.settlement.self := hx.covered
  have hacc : ∀ u t, x.custody.withdrawn u t + (x.settlement.depositedCollateral u t).val =
      x.custody.deposited u t := hx.accounted
  rw [← h.collateral, ← hself] at hcov
  rw [← h.collateral] at hacc
  rw [h.custody]
  exact ⟨hcov, hacc⟩

theorem custodial_of_step (hx : x.WellFormed) (hr : Custodial x.custody) (h : x.step l = some x') :
    Custodial x'.custody := by
  cases effect_of_step hx h with
  | swept _ _ _ _ _ _ _ _ _ y _ _ _ _ hF =>
    rw [(quiet_restOrClose y _).custody]
    exact custodial_of_booked (x := x.written _ _ _ _ _ _ _) hr hF.booked
  | queued =>
    rw [(quiet_addToBatch _ _ _ _ _ _ _).custody]
    exact hr
  | cancelled | emptied => exact hr
  | dealt _ _ _ _ _ y _ _ hF => exact (custodial_of_booked hr hF.booked : Custodial y.custody)
  | custody _ _ _ hop => exact hr.step hop
  | administered _ _ _ hadmin =>
    rw [hadmin.custody]
    exact hr

/-- In a run with amounts below `2^255` the contract's tokens cover the balances of all accounts and
the fees that were taken off them. -/
theorem tokens_cover_balances {engine engineOwner self owner treasury : Address}
    {block epochLength : Nat} {s : Settlement}
    (hdeploy : Settlement.deploy self owner block epochLength treasury = .ok s)
    {tokens : Address → Ledger}
    (h : Path Exchange.step SmallAmounts (start engine engineOwner (.start s tokens)) x)
    (token : Address) : x.settlement.total token + feesIn token x.fills ≤
      x.custody.vault.tokens token x.settlement.self := by
  obtain ⟨-, hvirt, hcoll, -⟩ := Settlement.deploy_ok hdeploy
  have hr : x.WellFormed ∧ Custodial x.custody :=
    h.invariant (I := fun x => x.WellFormed ∧ Custodial x.custody)
      (fun _ _ _ hI _ hstep => ⟨hI.1.step hstep, custodial_of_step hI.1 hI.2 hstep⟩)
      ⟨wellFormed_start _ _ _, custodial_start hcoll tokens⟩
  -- what was deposited and not withdrawn is the collateral
  have hnet : x.custody.netDeposits token =
      ∑ᶠ user, ((x.settlement.depositedCollateral user token).val : Int) := by
    have hsum : ∀ user, (x.custody.deposited user token : Int) =
        x.custody.withdrawn user token + (x.settlement.depositedCollateral user token).val :=
      fun user => by exact_mod_cast (hr.2.accounted user token).symm
    rw [VaultRun.netDeposits, finsum_congr hsum,
      finsum_add_distrib (Set.toFinite _) (Set.toFinite _)]
    ring
  rw [accounted_of_path hvirt h token, hnet]
  exact hr.2.covered token

open SpotRun in
/-- Alice pays a fee of 5. -/
theorem tokens_cover_balances_fee : ∃ x : Exchange, feesIn quote x.fills = 5 ∧
    x.settlement.total quote + feesIn quote x.fills ≤
      x.custody.vault.tokens quote x.settlement.self := by
  obtain ⟨x, hpath, hfees⟩ :
      ∃ x : Exchange, Path Exchange.step SmallAmounts fresh x ∧ feesIn quote x.fills = 5 :=
    exists_path fresh
      (opening .continuous 100 ++ [limit bob .sell 0 5, limit alice .buy 0 5]) (by decide +kernel)
  have hdeploy : Settlement.deploy CustodyRun.self CustodyRun.owner 0 5 CustodyRun.treasury =
      .ok CustodyRun.settlement := rfl
  exact ⟨x, hfees, tokens_cover_balances hdeploy hpath quote⟩

end Exchange

end HyperPax.PaxSpot
