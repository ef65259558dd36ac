/-
  Vesting/Lockup.lean --- what is left of the lockup after a clawback.

  `ComputeClawback` caps the lockup schedule at the vested coins.  `transferClawback` takes only
  the base account of the result: it stores an account of the default type, so that the bank lets
  the unvested coins go, and the schedule is dropped.  From then on nothing is locked.
-/
import HyperPax.Vesting.Keeper

set_option autoImplicit false

namespace HyperPax.Vesting

open Lib

section

variable {D : Type} [Fintype D] {p : Params D} {s s' : State D}

variable {a : Address} {amount : Coins D} {acc : Account D}

theorem sendCoins_account {src dst : Address} (hacc : s.accounts a = some acc)
    (h : sendCoins s src dst amount = .ok s') : s'.accounts a = some acc := by
  have h := of_require h
  cases h
  by_cases ha : a = dst
  · subst ha
    simp [hacc]
  · simp [Function.update_of_ne ha, hacc]

theorem sendClawback_account {b dest : Address} (hacc : s.accounts a = some acc)
    (h : sendClawback p s b dest amount = .ok s') : s'.accounts a = some acc := by
  unfold sendClawback at h
  split_ifs at h
  · obtain ⟨t, hsend, h⟩ := bind_ok.mp h
    cases h
    have hkept : t.accounts a = some acc := sendCoins_account hacc hsend
    exact hkept
  · exact sendCoins_account hacc h

theorem clawback_account {msg : MsgClawback} {coins : Coins D}
    (h : clawback p s msg = .ok (s', coins)) :
    (∃ va, s.accounts msg.accountAddress = some (.clawback va)) ∧
      s'.accounts msg.accountAddress = some (.eth false) := by
  obtain ⟨va, _, hcheck, hsend⟩ := clawback_ok h
  exact ⟨⟨va, (checkClawback_ok hcheck).1⟩,
    sendClawback_account (Function.update_self _ _ _) hsend⟩

/-- The coins that were vested at the clawback and that the lockup has not unlocked at a time. -/
def lockedVested (va : ClawbackVestingAccount D) (clawbackTime t : Time) : Coins D :=
  va.getVestedCoins clawbackTime - va.getUnlockedCoins t ⊓ va.getVestedCoins clawbackTime

omit [Fintype D] in
theorem lockedVested_eq_zero_iff {va : ClawbackVestingAccount D} {clawbackTime t : Time} :
    lockedVested va clawbackTime t = 0 ↔
      va.getVestedCoins clawbackTime ≤ va.getUnlockedCoins t := by
  unfold lockedVested
  rw [tsub_eq_zero_iff_le, le_inf_iff]
  exact and_iff_left le_rfl

end

/-- At any time after a clawback the account locks what was vested but is not unlocked by then,
exactly if that is nothing. -/
theorem clawback_keeps_lockup_iff {D : Type} [Fintype D] (p : Params D) (s s' : State D)
    (msg : MsgClawback) (coins : Coins D) (h : clawback p s msg = .ok (s', coins)) :
    ∃ va, s.accounts msg.accountAddress = some (.clawback va) ∧
      ∀ t, lockedVested va s.now t ≤ lockedOf { s' with now := t } msg.accountAddress ↔
        va.getVestedCoins s.now ≤ va.getUnlockedCoins t := by
  obtain ⟨⟨va, hva⟩, haccount⟩ := clawback_account h
  refine ⟨va, hva, ?_⟩
  intro t
  have hlocked : lockedOf { s' with now := t } msg.accountAddress = 0 := by
    unfold lockedOf
    rw [haccount]
  rw [hlocked, ← lockedVested_eq_zero_iff]
  exact nonpos_iff_eq_zero

namespace OnTime

def funder : Address := .ofNat 1
def vesting : Address := .ofNat 2

def params : Params Unit := ⟨(), fun _ => false, .ofNat 3, .ofNat 4⟩

/-- A funder with a hundred coins, and an account that has not been funded. -/
def state : State Unit where
  now := .wrap 1700000000
  accounts a :=
    if a = vesting then some (.clawback (newVestingAccount funder)) else some (.eth false)
  balances a _ := if a = funder then 100 else 0
  communityPool := 0
  govClawbackDisabled _ := false
  activeClawbackProposal _ := false
  grants := fun _ _ _ => none

end OnTime

namespace Lockup

open OnTime

/-- Twenty coins: half of them vest after a hundred seconds and all of them after two hundred; the
lockup ends at the given time. -/
def account (lockup : Int) : ClawbackVestingAccount Unit where
  funderAddress := funder
  originalVesting _ := 20
  delegatedFree := 0
  delegatedVesting := 0
  startTime := .zero
  endTime := .wrap 1000
  lockupPeriods := [⟨.wrap lockup, fun _ => 20⟩]
  vestingPeriods := [⟨.wrap 100, fun _ => 10⟩, ⟨.wrap 100, fun _ => 10⟩]

/-- The state after 150 seconds. -/
def funded (lockup : Int) : State Unit :=
  { state with
    now := .wrap 150
    accounts := fun a =>
      if a = vesting then some (.clawback (account lockup)) else some (.eth false)
    balances := fun a _ => if a = vesting then 20 else 0 }

def message : MsgClawback := ⟨funder, vesting, none⟩

end Lockup

open Lockup in
/-- The lockup was over before the clawback. -/
theorem lockup_over_kept :
    ∃ s' coins, clawback OnTime.params (funded 120) message = .ok (s', coins) ∧
      lockedVested (account 120) (funded 120).now (Lib.Sint.wrap 200) ≤
        lockedOf { s' with now := Lib.Sint.wrap 200 } OnTime.vesting := by
  have hok : (clawback OnTime.params (funded 120) message).isOk := by decide +kernel
  cases hclaw : clawback OnTime.params (funded 120) message with
  | error =>
    rw [hclaw] at hok
    cases hok
  | ok result =>
    refine ⟨result.1, result.2, rfl, ?_⟩
    obtain ⟨va, hva, hiff⟩ :=
      clawback_keeps_lockup_iff OnTime.params (funded 120) result.1 message result.2 hclaw
    have haccount : (funded 120).accounts OnTime.vesting = some (.clawback (account 120)) := rfl
    obtain rfl : account 120 = va :=
      Account.clawback.inj (Option.some.inj (haccount.symm.trans hva))
    refine (hiff (Lib.Sint.wrap 200)).mpr fun d => ?_
    cases d
    decide +kernel

open Lockup in
/-- Ten coins are vested and locked up until second 1000: after the clawback none of them is. -/
theorem lockup_dropped : (account 1000).getVestedCoins (funded 1000).now () = 10 ∧
      lockedVested (account 1000) (funded 1000).now (Lib.Sint.wrap 200) () = 10 ∧
      ∃ s' coins, clawback OnTime.params (funded 1000) message = .ok (s', coins) ∧
        lockedOf { s' with now := Lib.Sint.wrap 200 } OnTime.vesting () = 0 := by
  refine ⟨by decide +kernel, by decide +kernel, ?_⟩
  have hok : ((clawback OnTime.params (funded 1000) message).map fun r =>
      lockedOf { r.1 with now := Lib.Sint.wrap 200 } OnTime.vesting ()) = .ok 0 := by
    rfl
  cases hclaw : clawback OnTime.params (funded 1000) message with
  | error =>
    rw [hclaw] at hok
    cases hok
  | ok result =>
    rw [hclaw] at hok
    exact ⟨result.1, result.2, rfl, Except.ok.inj hok⟩

/-! ## What is locked over time -/

namespace ClawbackVestingAccount

variable {D : Type} [Fintype D]

/-- No period and no delegation has a negative amount. -/
structure NonNegative (va : ClawbackVestingAccount D Int) : Prop where
  lockup : ∀ p ∈ va.lockupPeriods, 0 ≤ p.amount
  vesting : ∀ p ∈ va.vestingPeriods, 0 ≤ p.amount
  delegatedFree : 0 ≤ va.delegatedFree

omit [Fintype D] in
theorem min_apply {a b : Coins D Int} (ha : 0 ≤ a) (hb : 0 ≤ b) (d : D) :
    a.min b d = min (a d) (b d) := by
  have ha : 0 ≤ a d := ha d
  have hb : 0 ≤ b d := hb d
  unfold Coins.min
  split <;> omega

variable {va : ClawbackVestingAccount D Int} (hva : va.validate = .ok ()) (hnonneg : va.NonNegative)
  (t : Time)

include hva hnonneg

theorem vested_bounds : 0 ≤ va.getVestedCoins t ∧ va.getVestedCoins t ≤ va.originalVesting := by
  have htotal := (va.totals_of_validate hva).2.le
  exact ⟨readSchedule_nonneg hnonneg.vesting htotal _ _ t,
    readSchedule_le hnonneg.vesting htotal _ _ t⟩

theorem unlocked_nonneg : 0 ≤ va.getUnlockedCoins t :=
  readSchedule_nonneg hnonneg.lockup (va.totals_of_validate hva).1.le _ _ t

theorem unlockedVested_apply (d : D) : va.getUnlockedVestedCoins t d =
    min (va.getUnlockedCoins t d) (va.getVestedCoins t d) :=
  min_apply (unlocked_nonneg hva hnonneg t) (vested_bounds hva hnonneg t).1 d

theorem lockedCoins_eq : va.lockedCoins t = some fun d => va.originalVesting d -
      min (va.getUnlockedVestedCoins t d + va.delegatedFree d) (va.getVestedCoins t d) := by
  obtain ⟨-, hvested⟩ := vested_bounds hva hnonneg t
  have hmin := unlockedVested_apply hva hnonneg t
  have hle : va.getUnlockedVestedCoins t ≤ va.getVestedCoins t := by
    intro d
    rw [hmin]
    exact min_le_right _ _
  have hfree : va.getUnlockedVestedCoins t +
      va.delegatedFree.min (va.getVestedCoins t - va.getUnlockedVestedCoins t) = fun d =>
        min (va.getUnlockedVestedCoins t d + va.delegatedFree d) (va.getVestedCoins t d) := by
    funext d
    rw [Pi.add_apply, min_apply hnonneg.delegatedFree (sub_nonneg.mpr hle), Pi.sub_apply]
    omega
  rw [lockedCoins, getLockedUpVestedCoins, sub?_of_le hle, Option.bind_eq_bind, Option.bind_some]
  dsimp only
  rw [hfree, sub?_of_le fun d => (min_le_right _ _).trans (hvested d)]
  rfl

end ClawbackVestingAccount

/-- Twenty coins: the lockup ends at second 5, and the vesting periods are ten seconds long. -/
def Lockup.signed (amounts : List Int) : ClawbackVestingAccount Unit Int where
  funderAddress := OnTime.funder
  originalVesting _ := 20
  delegatedFree := 0
  delegatedVesting := 0
  startTime := .zero
  endTime := .wrap 1000
  lockupPeriods := [⟨.wrap 5, fun _ => 20⟩]
  vestingPeriods := amounts.map fun n => ⟨.wrap 10, fun _ => n⟩

end HyperPax.Vesting
