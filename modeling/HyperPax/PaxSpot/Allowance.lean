/-
  PaxSpot/Allowance.lean --- what the router's counter says about a funded wallet.

  The counter of a wallet in a market is what was submitted to buy less what was submitted
  to sell.  An order on one side frees allowance for the other side whether it was
  filled or not; so the counter bounds the position only as long as the orders
  of the other side are filled when it is used (`Covered`).
-/
import HyperPax.PaxSpot.Router

set_option autoImplicit false

namespace HyperPax.PaxSpot

open Lib Exchange

namespace Gateway

variable {wallet : Address} {m : MarketId} {M : Uint 256} {g g' : Gateway} {l : GatewayLabel}

/-- The wallet is funded whenever it submits an order in the market, and its maximum position there
is `M`. -/
def MaximumIs (wallet : Address) (m : MarketId) (M : Uint 256) (g : Gateway) :
    GatewayLabel → Prop
  | .submitOrder ctx providers marketId .. => ctx.sender = wallet → marketId = m →
      g.isFundedWallet wallet ∧ g.allowanceProvider ≠ .zero ∧
        (providers g.allowanceProvider).getMaxPosition wallet m = some M
  | _ => True

instance (wallet : Address) (m : MarketId) (M : Uint 256) (g : Gateway) (l : GatewayLabel) :
    Decidable (g.MaximumIs wallet m M l) := by
  unfold MaximumIs
  split <;> infer_instance

/-- Every order of the wallet on a side has been filled entirely. -/
def AllFilled (x : Exchange) (wallet : Address) (m : MarketId) (side : Side) : Prop :=
  ∀ id ∈ x.ordersOf wallet m side, traded id x.fills = (x.orders id).size.val
deriving Decidable

/-- When the wallet submits an order in the market, the maximum leaves room for it on top of the
position and of what is open on its side; or nothing on the other side was left unfilled. -/
def Covered (wallet : Address) (m : MarketId) (M : Uint 256) (g : Gateway) :
    GatewayLabel → Prop
  | .submitOrder ctx _ marketId side _ _ size => ctx.sender = wallet → marketId = m →
      side.sign * g.exchange.netPosition wallet m + g.exchange.openOn wallet m side + size.val ≤
        M.val ∨ AllFilled g.exchange wallet m side.opposite
  | _ => True

instance (wallet : Address) (m : MarketId) (M : Uint 256) (g : Gateway) (l : GatewayLabel) :
    Decidable (g.Covered wallet m M l) := by
  unfold Covered
  split <;> infer_instance

/-- The counter is what was submitted, and neither side can carry the position beyond the
maximum. -/
structure WithinReach (wallet : Address) (m : MarketId) (M : Uint 256) (g : Gateway) : Prop where
  kept : g.exchange.Kept
  counter : (g.positions wallet m).val =
    g.exchange.submittedOn wallet m .buy - g.exchange.submittedOn wallet m .sell
  reach : ∀ side : Side,
    side.sign * g.exchange.netPosition wallet m + g.exchange.openOn wallet m side ≤ M.val

section

variable (h : WithinReach wallet m M g)

include h

theorem WithinReach.sign_mul_counter (side : Side) :
    side.sign * (g.positions wallet m).val = g.exchange.submittedOn wallet m side -
      g.exchange.submittedOn wallet m side.opposite := by
  rw [h.counter]
  cases side with
  | buy | sell =>
    rw [Side.sign, Side.opposite]
    ring

variable {side : Side}

theorem WithinReach.le_counter (hfilled : AllFilled g.exchange wallet m side.opposite) :
    side.sign * g.exchange.netPosition wallet m + g.exchange.openOn wallet m side ≤
      side.sign * (g.positions wallet m).val := by
  have hother : g.exchange.tradedOn wallet m side.opposite =
      g.exchange.submittedOn wallet m side.opposite := Finset.sum_congr rfl hfilled
  have hside := reach_le_submittedOn wallet m side h.kept.spent
  rw [h.sign_mul_counter, sign_mul_netPosition wallet m side h.kept.sided, hother]
  omega

theorem WithinReach.engine {l' : Label} (hpositions : g'.positions wallet m = g.positions wallet m)
    (hstep : g.exchange.step l' = some g'.exchange) (hnone : ∀ side, l'.placed wallet m side = 0) :
    WithinReach wallet m M g' := by
  refine ⟨h.kept.step hstep, ?_, fun side => ?_⟩
  · rw [hpositions, h.counter, submittedOn_of_step wallet m .buy h.kept.wellFormed hstep,
      submittedOn_of_step wallet m .sell h.kept.wellFormed hstep, hnone, hnone]
    rfl
  have hworst := worstCase_of_step wallet m side h.kept hstep
  rw [hnone] at hworst
  have hbefore := h.reach side
  omega

theorem WithinReach.submit {ctx : Ctx} {orderType : OrderType} {offsetBps : Sint 16}
    {size : Uint 128} {position : Sint 256}
    (hposition : moved (g.positions wallet m) side size = some position)
    (hpositions : g'.positions wallet m = position)
    (hstep : g.exchange.step (.placeOrder ctx wallet m side orderType offsetBps size) =
      some g'.exchange)
    (hroom : side.sign * g.exchange.netPosition wallet m + g.exchange.openOn wallet m side +
      size.val ≤ M.val) :
    WithinReach wallet m M g' := by
  have hplaced : ∀ side', (Label.placeOrder ctx wallet m side orderType offsetBps size).placed
      wallet m side' = if side = side' then size.val else 0 := by
    intro side'
    simp [Label.placed]
  refine ⟨h.kept.step hstep, ?_, fun side' => ?_⟩
  · rw [hpositions, moved_val hposition, h.counter,
      submittedOn_of_step wallet m .buy h.kept.wellFormed hstep,
      submittedOn_of_step wallet m .sell h.kept.wellFormed hstep, hplaced, hplaced]
    cases side with
    | buy | sell =>
      simp only [Side.sign, if_true, reduceCtorEq, if_false]
      push_cast
      ring
  · have hworst := worstCase_of_step wallet m side' h.kept hstep
    rw [hplaced] at hworst
    by_cases hside : side = side'
    · subst hside
      rw [if_pos rfl] at hworst
      omega
    · rw [if_neg hside] at hworst
      have hbefore := h.reach side'
      omega

theorem WithinReach.step (hmax : g.MaximumIs wallet m M l) (hcov : g.Covered wallet m M l)
    (hstep : g.step l = some g') : WithinReach wallet m M g' := by
  rcases step_cases hstep with
    ⟨ctx, _, marketId, side, _, _, _, rfl, hsubmit⟩ |
    ⟨hpositions, hengine⟩
  · obtain ⟨hcheck, _, _, _, hexchange, hposition, rfl⟩ :=
      submitOrder_ok hsubmit
    by_cases hown : ctx.sender = wallet ∧ marketId = m
    · obtain ⟨rfl, rfl⟩ := hown
      obtain ⟨hfunded, hprovider, hM⟩ := hmax rfl rfl
      apply h.submit hposition (write_same _ _ _ _) hexchange
      cases hcov rfl rfl with
      | inl hroom => exact hroom
      | inr hfilled =>
        -- the counter covers the side, and the router has checked the counter
        have hcounter := h.le_counter hfilled
        have hallowed := checkFundedWalletAllowance_ok (hcheck hfunded) hprovider hM
        obtain ⟨hlower, hupper⟩ := abs_le.mp hallowed
        cases side with
        | buy | sell =>
          rw [Side.sign] at hcounter hlower hupper ⊢
          omega
    · refine h.engine ?_ hexchange fun side' => ?_
      · exact write_of_ne _ _ fun heq => hown ⟨heq.1.symm, heq.2.symm⟩
      · rw [Label.placed, if_neg fun heq => hown ⟨heq.1, heq.2.1⟩]
  · cases hengine with
    | inl hsame =>
      refine ⟨hsame ▸ h.kept, ?_, ?_⟩
      · rw [hpositions, hsame]
        exact h.counter
      · rw [hsame]
        exact h.reach
    | inr hengine =>
      obtain ⟨_, hl', hnone⟩ := hengine
      exact h.engine (by rw [hpositions]) hl' fun side => hnone wallet m side

end

theorem withinReach_start (wallet : Address) (m : MarketId) (M cooldown : Uint 256)
    (self owner engine engineOwner : Address) (custody : VaultRun) :
    WithinReach wallet m M (start self owner cooldown (.start engine engineOwner custody)) := by
  have hkept := kept_start engine engineOwner custody
  have hnone : ∀ side, (Exchange.start engine engineOwner custody).submittedOn wallet m side = 0 :=
    fun side => Finset.sum_eq_zero fun _ _ => rfl
  refine ⟨hkept, ?_, fun side => ?_⟩
  · change (0 : Int) =
      ((Exchange.start engine engineOwner custody).submittedOn wallet m .buy : Int) -
        (Exchange.start engine engineOwner custody).submittedOn wallet m .sell
    rw [hnone, hnone]
    rfl
  have hopen := reach_le_submittedOn wallet m side hkept.spent
  rw [hnone] at hopen
  have hnet : (Exchange.start engine engineOwner custody).netPosition wallet m = 0 := rfl
  change side.sign * (Exchange.start engine engineOwner custody).netPosition wallet m +
    ((Exchange.start engine engineOwner custody).openOn wallet m side : Int) ≤ M.val
  rw [hnet, mul_zero]
  omega

/-- In every run in which a wallet that is funded with a constant maximum submits only orders that
are covered, its net filled position stays within the maximum. -/
theorem position_within_maximum {self owner engine engineOwner : Address} {custody : VaultRun}
    {cooldown : Uint 256}
    (h : Path Gateway.step (fun g l => g.MaximumIs wallet m M l ∧ g.Covered wallet m M l)
      (start self owner cooldown (.start engine engineOwner custody)) g) :
    |g.exchange.netPosition wallet m| ≤ M.val := by
  have hinv : WithinReach wallet m M g := by
    refine h.invariant (I := WithinReach wallet m M) ?_ (withinReach_start _ _ _ _ _ _ _ _ _)
    rintro _ _ _ hg ⟨hmax, hcov⟩ hstep
    exact hg.step hmax hcov hstep
  have hbuy := hinv.reach .buy
  have hsell := hinv.reach .sell
  simp only [Side.sign] at hbuy hsell
  rw [abs_le]
  constructor
  · omega
  · omega

end Gateway

/-! ## A funded wallet to run -/

namespace AllowanceRun

open SpotRun

/-- Alice may hold five in any market. -/
def maximum : Uint 256 := .truncate 5

def providers : Address → Provider := fun _ => ⟨fun _ => some true, fun _ _ => some maximum⟩

def gateway : Gateway := .start router owner .zero fresh

/-- Open market 7 and register Alice. -/
def opening : List GatewayLabel :=
  (SpotRun.opening .continuous 0).map GatewayLabel.engine ++
    [.setAllowanceProvider owner (.ofNat 105), .registerFundedWallet owner alice]

/-- A LIMIT order in market 7, in block 1 and at an oracle price of 100. -/
def submit (trader : Address) (side : Side) (offsetBps : Int) (size : Nat) : GatewayLabel :=
  .submitOrder ⟨trader, 1, fun _ => some hundred⟩ providers 7 side .limit (.wrap offsetBps)
    (.truncate size)

end AllowanceRun

namespace Gateway

open SpotRun AllowanceRun

/-- Bob bids for ten.  Alice, with a maximum of five, bids for five below the market, which is not
filled and takes her counter to 5, and then sells ten, which takes it to -5 and is filled: she is
ten short. -/
theorem unfilled_buy_frees_allowance :
    ∃ g, Path Gateway.step (MaximumIs alice 7 maximum) gateway g ∧
      g.exchange.netPosition alice 7 = -10 ∧ maximum.val = 5 :=
  exists_path gateway
    (AllowanceRun.opening ++ [submit bob .buy 0 10, submit alice .buy (-100) 5,
      submit alice .sell 0 10]) (by decide +kernel)

/-- Alice buys five, which are filled, and then sells ten: from five long to five short. -/
theorem filled_buy_then_sell_within_maximum : ∃ g, Path Gateway.step
        (fun g l => g.MaximumIs alice 7 maximum l ∧ g.Covered alice 7 maximum l) gateway g ∧
      g.exchange.netPosition alice 7 = -5 ∧ |g.exchange.netPosition alice 7| ≤ maximum.val := by
  have hrun : ∃ g, Path Gateway.step
      (fun g l => g.MaximumIs alice 7 maximum l ∧ g.Covered alice 7 maximum l) gateway g ∧
      g.exchange.netPosition alice 7 = -5 :=
    exists_path gateway
      (AllowanceRun.opening ++ [submit bob .sell 0 5, submit alice .buy 0 5, submit bob .buy 0 10,
        submit alice .sell 0 10]) (by decide +kernel)
  obtain ⟨g, hpath, hnet⟩ := hrun
  exact ⟨g, hpath, hnet, position_within_maximum hpath⟩

end Gateway

end HyperPax.PaxSpot
