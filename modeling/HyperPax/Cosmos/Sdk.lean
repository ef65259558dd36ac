/-
  Cosmos/Sdk.lean --- the message servers of the SDK and of ibc-go, as far as coins go.

  An instance of the message servers the precompiles call, with the answers of the
  environment: why a module turns a message down, and how it counts shares.  It does what
  is documented, so that the assumptions about the message servers can be met.
-/
import HyperPax.Cosmos.Payments

set_option autoImplicit false

namespace HyperPax.Cosmos

open Lib Function Action List

def modifyStaking (f : Staking → Staking) : Action Context Err Unit :=
  .modify fun s => { s with staking := f s.staking }

section

variable (k : Keeper) (env : Env)

/-! ## Distribution -/

/-- `withdrawDelegationRewards`: pays the rewards and says what was paid.  When there was
nothing, the answer is a zero coin of the base denomination. -/
def withdrawDelegationRewards (delegator validator : Address) : Action Context Err Coins := do
  let s ← gets Context.staking
  let rewards ← orFail (s.pending delegator validator) .noDelegation
  payAll env (distribute k env (s.withdrawAddr delegator) rewards)
  modifyStaking fun s => s.setPending delegator validator (some [])
  return if isZero rewards then [⟨env.baseDenom, 0⟩] else rewards

/-- `BeforeDelegationSharesModified`, for a delegation that exists. -/
def beforeSharesModified (delegator validator : Address) : Action Context Err Unit := do
  let s ← gets Context.staking
  if (s.pending delegator validator).isSome then do
    let _ ← withdrawDelegationRewards k env delegator validator
    return ()
  else return ()

/-- `WithdrawValidatorCommission`. -/
def withdrawCommission (validator : Address) : Action Context Err Coins := do
  let s ← gets Context.staking
  rejectIf (isZero (s.commission validator)) .noCommission
  payAll env (distribute k env (s.withdrawAddr validator) (s.commission validator))
  modifyStaking fun s => { s with commission := update s.commission validator [] }
  return s.commission validator

/-! ## Staking -/

/-- The module's own reasons to turn a message down. -/
def moduleAccepts : Action Context Err Unit :=
  match env.rejects with
  | some reason => .fail (.rejected reason)
  | none => pure ()

/-- `Delegate`, out of the delegator's account. -/
def sdkDelegate (delegator validator : Address) (amount : Nat) : Action Context Err Unit := do
  moduleAccepts env
  let s ← gets Context.staking
  rejectIf (validator ∉ s.validators) .noValidator
  beforeSharesModified k env delegator validator
  payAll env [⟨some delegator, some (pool k (s.status validator)), nativeStake env amount⟩]
  modifyStaking fun s => s.setPending delegator validator (some [])

/-- `Unbond`: the rewards are paid; a validator that is not bonded and has no shares left
is removed, and its commission is paid out. -/
def unbond (delegator validator : Address) : Action Context Err Unit := do
  let s ← gets Context.staking
  rejectIf (s.pending delegator validator = none) .noDelegation
  beforeSharesModified k env delegator validator
  modifyStaking fun s =>
    s.setPending delegator validator (if env.closesDelegation then none else some [])
  if env.emptiesValidator ∧ s.status validator = .unbonded then do
    payAll env (distribute k env (s.withdrawAddr validator) (s.commission validator))
    modifyStaking fun s => s.removeValidator validator
  else return ()

/-- `Undelegate`. -/
def undelegate (delegator validator : Address) : Action Context Err Unit := do
  moduleAccepts env
  let s ← gets Context.staking
  rejectIf (validator ∉ s.validators) .noValidator
  unbond k env delegator validator
  payAll env (repool k env (s.status validator) .unbonding env.returned)

/-- `Delegate` of tokens that are in a pool already. -/
def delegateFromPool (delegator validator : Address) (src : Status) (amount : Nat) :
    Action Context Err Unit := do
  beforeSharesModified k env delegator validator
  let s ← gets Context.staking
  payAll env (repool k env src (s.status validator) amount)
  modifyStaking fun s => s.setPending delegator validator (some [])

/-- `BeginRedelegation`. -/
def redelegate (delegator validatorSrc validatorDst : Address) : Action Context Err Unit := do
  moduleAccepts env
  .rejectIf (validatorSrc = validatorDst) (.rejected "cannot redelegate to the same validator")
  let s ← gets Context.staking
  rejectIf (validatorSrc ∉ s.validators ∨ validatorDst ∉ s.validators) .noValidator
  unbond k env delegator validatorSrc
  delegateFromPool k env delegator validatorDst (s.status validatorSrc) env.returned

/-- `CancelUnbondingDelegation`. -/
def cancelUnbondingDelegation (delegator validator : Address) (amount : Nat) :
    Action Context Err Unit := do
  moduleAccepts env
  let s ← gets Context.staking
  rejectIf (validator ∉ s.validators) .noValidator
  delegateFromPool k env delegator validator .unbonding amount

/-- The transfer of ibc-go. -/
def sdkTransfer (msg : MsgTransfer) : Action Context Err Unit := do
  moduleAccepts env
  payAll env (sendTransfer k env msg)

/-! ## The instance -/

/-- The message servers. -/
def sdk : Modules where
  delegate := sdkDelegate k env
  undelegate delegator validator _ := undelegate k env delegator validator
  beginRedelegate delegator validatorSrc validatorDst _ :=
    redelegate k env delegator validatorSrc validatorDst
  cancelUnbondingDelegation delegator validator amount _ :=
    cancelUnbondingDelegation k env delegator validator amount
  withdrawDelegationRewards := withdrawDelegationRewards k env
  withdrawValidatorCommission := withdrawCommission k env
  transfer := sdkTransfer k env

end

variable {k : Keeper} {env : Env} {s s' : Context} {d v : Address} {coins : Coins}
  {f : Unit → Action Context Err Unit}

theorem withdrawDelegationRewards_ok
    (h : (withdrawDelegationRewards k env d v).run s = (s', .ok coins)) :
    Pays (rewardPayments k env s.staking d v) s s' ∧ Elsewhere v s.staking s'.staking ∧
      (coins.head?.map Coin.amount).getD 0 = firstReward s.staking d v := by
  unfold withdrawDelegationRewards at h
  rw [run_gets_bind] at h
  obtain ⟨_, hpending, h⟩ := run_orFail_bind_ok.mp h
  obtain ⟨_, ⟨⟩, hpay, h⟩ := run_bind_ok.mp h
  obtain ⟨hpays, hstaking⟩ := payAll_ok hpay
  rw [modifyStaking, run_modify_bind, run_pure, Prod.mk.injEq, Except.ok.injEq] at h
  obtain ⟨rfl, rfl⟩ := h
  refine ⟨?_, hstaking ▸ .setPending d _, ?_⟩
  · unfold rewardPayments
    rw [hpending]
    exact hpays.of_same rfl rfl
  unfold firstReward
  rw [hpending]
  dsimp only
  split <;> rfl

theorem beforeSharesModified_ok (h : (beforeSharesModified k env d v).run s = (s', .ok ())) :
    Pays (rewardPayments k env s.staking d v) s s' ∧ Elsewhere v s.staking s'.staking := by
  unfold beforeSharesModified at h
  rw [run_gets_bind] at h
  split at h
  · obtain ⟨_, _, hw, h⟩ := run_bind_ok.mp h
    obtain ⟨hpays, helse, -⟩ := withdrawDelegationRewards_ok hw
    rw [run_pure, Prod.mk.injEq] at h
    rw [← h.1]
    exact ⟨hpays, helse⟩
  rename_i hnone
  rw [run_pure, Prod.mk.injEq] at h
  rw [← h.1]
  have hpending : s.staking.pending d v = none := by simpa using hnone
  unfold rewardPayments
  rw [hpending]
  exact ⟨.nil rfl rfl, .refl⟩

theorem moduleAccepts_bind_ok (h : (moduleAccepts env >>= f).run s = (s', .ok ())) :
    (f ()).run s = (s', .ok ()) := by
  unfold moduleAccepts at h
  split at h
  · cases h
  · exact h

variable {n : Nat}

theorem unbond_ok (h : (unbond k env d v).run s = (s', .ok ())) :
    Pays (rewardPayments k env s.staking d v ++ removalPayments k env s.staking v) s s' ∧
      Elsewhere v s.staking s'.staking := by
  unfold unbond at h
  rw [run_gets_bind] at h
  obtain ⟨-, h⟩ := rejectIf_bind_ok.mp h
  obtain ⟨_, ⟨⟩, hbefore, h⟩ := run_bind_ok.mp h
  obtain ⟨hrewards, helse⟩ := beforeSharesModified_ok hbefore
  rw [modifyStaking, run_modify_bind] at h
  have helse' := helse.trans (.setPending d (if env.closesDelegation then none else some []))
  unfold removalPayments
  split at h
  · rename_i hremoved
    rw [if_pos hremoved]
    obtain ⟨_, ⟨⟩, hpay, h⟩ := run_bind_ok.mp h
    obtain ⟨hcommission, hstaking⟩ := payAll_ok hpay
    rw [modifyStaking, run_modify, Prod.mk.injEq] at h
    obtain ⟨rfl, -⟩ := h
    refine ⟨?_, ?_⟩
    · refine (Pays.append ?_ hcommission).of_same rfl rfl
      exact hrewards.of_same rfl rfl
    dsimp only
    rw [hstaking]
    exact helse'.trans .removeValidator
  · rename_i hkept
    rw [if_neg hkept, append_nil]
    rw [run_pure, Prod.mk.injEq] at h
    obtain ⟨rfl, -⟩ := h
    exact ⟨hrewards.of_same rfl rfl, helse'⟩

theorem delegateFromPool_ok {src : Status}
    (h : (delegateFromPool k env d v src n).run s = (s', .ok ())) :
    Pays (rewardPayments k env s.staking d v ++ repool k env src (s.staking.status v) n) s s' := by
  obtain ⟨_, ⟨⟩, hbefore, h⟩ := run_bind_ok.mp h
  obtain ⟨hrewards, helse⟩ := beforeSharesModified_ok hbefore
  rw [run_gets_bind, helse.status] at h
  obtain ⟨_, ⟨⟩, hpay, h⟩ := run_bind_ok.mp h
  obtain ⟨hpool, -⟩ := payAll_ok hpay
  rw [modifyStaking, run_modify, Prod.mk.injEq] at h
  obtain ⟨rfl, -⟩ := h
  exact (hrewards.append hpool).of_same rfl rfl

theorem sdkDelegate_ok (h : (sdkDelegate k env d v n).run s = (s', .ok ())) :
    Pays (rewardPayments k env s.staking d v ++
      [⟨some d, some (pool k (s.staking.status v)), nativeStake env n⟩]) s s' := by
  replace h := moduleAccepts_bind_ok h
  rw [run_gets_bind] at h
  obtain ⟨-, h⟩ := rejectIf_bind_ok.mp h
  obtain ⟨_, ⟨⟩, hbefore, h⟩ := run_bind_ok.mp h
  obtain ⟨hrewards, -⟩ := beforeSharesModified_ok hbefore
  obtain ⟨_, ⟨⟩, hpay, h⟩ := run_bind_ok.mp h
  obtain ⟨hstake, -⟩ := payAll_ok hpay
  rw [modifyStaking, run_modify, Prod.mk.injEq] at h
  obtain ⟨rfl, -⟩ := h
  exact (hrewards.append hstake).of_same rfl rfl

theorem undelegate_ok (h : (undelegate k env d v).run s = (s', .ok ())) :
    Pays (rewardPayments k env s.staking d v ++ removalPayments k env s.staking v ++
      repool k env (s.staking.status v) .unbonding env.returned) s s' := by
  replace h := moduleAccepts_bind_ok h
  rw [run_gets_bind] at h
  obtain ⟨-, h⟩ := rejectIf_bind_ok.mp h
  obtain ⟨_, ⟨⟩, hunbond, hpay⟩ := run_bind_ok.mp h
  exact (unbond_ok hunbond).1.append (payAll_ok hpay).1

theorem redelegate_ok {v' : Address} (h : (redelegate k env d v v').run s = (s', .ok ())) :
    Pays (rewardPayments k env s.staking d v ++ removalPayments k env s.staking v ++
      (rewardPayments k env s.staking d v' ++
        repool k env (s.staking.status v) (s.staking.status v') env.returned)) s s' := by
  replace h := moduleAccepts_bind_ok h
  obtain ⟨hne, h⟩ := rejectIf_bind_ok.mp h
  rw [run_gets_bind] at h
  obtain ⟨-, h⟩ := rejectIf_bind_ok.mp h
  obtain ⟨_, ⟨⟩, hunbond, hdelegate⟩ := run_bind_ok.mp h
  obtain ⟨hout, helse⟩ := unbond_ok hunbond
  have hin := delegateFromPool_ok hdelegate
  rw [helse.rewardPayments (Ne.symm hne), helse.status] at hin
  exact hout.append hin

theorem cancelUnbondingDelegation_ok
    (h : (cancelUnbondingDelegation k env d v n).run s = (s', .ok ())) :
    Pays (rewardPayments k env s.staking d v ++
      repool k env .unbonding (s.staking.status v) n) s s' := by
  replace h := moduleAccepts_bind_ok h
  rw [run_gets_bind] at h
  obtain ⟨-, h⟩ := rejectIf_bind_ok.mp h
  exact delegateFromPool_ok h

theorem withdrawCommission_ok (h : (withdrawCommission k env v).run s = (s', .ok coins)) :
    Pays (distribute k env (s.staking.withdrawAddr v) (s.staking.commission v)) s s' := by
  unfold withdrawCommission at h
  rw [run_gets_bind] at h
  obtain ⟨-, h⟩ := rejectIf_bind_ok.mp h
  obtain ⟨_, ⟨⟩, hpay, h⟩ := run_bind_ok.mp h
  rw [modifyStaking, run_modify_bind, run_pure, Prod.mk.injEq] at h
  obtain ⟨rfl, -⟩ := h
  exact (payAll_ok hpay).1.of_same rfl rfl

theorem sdkTransfer_ok {msg : MsgTransfer} (h : (sdkTransfer k env msg).run s = (s', .ok ())) :
    Pays (sendTransfer k env msg) s s' :=
  (payAll_ok (moduleAccepts_bind_ok h)).1

theorem sdk_documented (k : Keeper) (env : Env) : (sdk k env).Documented k env where
  delegate := sdkDelegate_ok
  undelegate := undelegate_ok
  beginRedelegate := redelegate_ok
  cancelUnbondingDelegation := cancelUnbondingDelegation_ok
  withdrawDelegationRewards := withdrawDelegationRewards_ok
  withdrawValidatorCommission := withdrawCommission_ok
  transfer := sdkTransfer_ok

end HyperPax.Cosmos
