/-
  Cosmos/Handlers.lean --- the staking, the distribution and the ICS-20 precompile.

  Source: precompiles/{staking,distribution,ics20}/tx.go and the `Run` methods.

  Each of these precompiles writes the StateDB back before it does anything, so that the
  modules see the balances the EVM has.  The modules then move coins in the bank, and
  three of the methods adjust one balance of the StateDB by hand.  Events and gas are not
  part of the model.
-/
import HyperPax.Cosmos.Modules

set_option autoImplicit false

namespace HyperPax.Cosmos

open Lib

/-! ## Calls -/

/-- The methods that can move coins, with their decoded arguments. -/
inductive Method where
  | delegate (delegator validator : Address) (amount : Nat)
  | undelegate (delegator validator : Address) (amount : Nat)
  | redelegate (delegator validatorSrc validatorDst : Address) (amount : Nat)
  | cancelUnbondingDelegation (delegator validator : Address) (amount : Nat) (creationHeight : Int)
  | claimRewards (delegator : Address) (maxRetrieve : Nat)
  | withdrawDelegatorRewards (delegator validator : Address)
  | withdrawValidatorCommission (validator : Address)
  | transfer (msg : MsgTransfer)

/-- A call frame: the immediate caller, the signer of the transaction, and whether the frame
is read-only. -/
structure Call where
  caller : Address
  origin : Address
  readOnly : Bool
  method : Method

def modifyDb (f : Evm.Backend → Evm.StateDB → Evm.StateDB) : Action Context Err Unit :=
  .modify fun s => { s with db := f s.backend s.db }

section

variable (modules : Modules) (env : Env) (caller origin : Address)

/-! ## Staking -/

/-- The delegator is the caller or the origin, and the amount is positive. -/
def checkDelegator (delegator : Address) (amount : Nat) : Action Context Err Unit := do
  .rejectIf (delegator = .zero) (.invalidDelegator delegator)
  .rejectIf (amount = 0) .invalidAmount
  .rejectIf (caller ≠ delegator ∧ origin ≠ delegator)
    (.differentOriginFromDelegator origin delegator)

/-- Execute a staking message under the grant the caller has from the origin; the origin
itself needs none. -/
def withStakeAuthz (msg : MsgType) (delegator validator : Address) (amount : Nat)
    (execute : Action Context Err Unit) : Action Context Err Unit := do
  let granter := if caller = delegator then origin else delegator
  if caller = origin then execute
  else do
    let grant ← onGrants (checkAuthzAndAllowanceForGranter env.now caller granter amount msg)
    execute
    onGrants
      (updateStakingAuthorization env.now caller granter grant.1 grant.2 msg validator amount)

/-- `Delegate`: a caller that delegates for itself has the amount taken off its balance in
the StateDB. -/
def handleDelegate (delegator validator : Address) (amount : Nat) : Action Context Err Unit := do
  checkDelegator caller origin delegator amount
  withStakeAuthz env caller origin .delegate delegator validator amount
    (delegate env modules delegator validator amount)
  if caller = delegator then modifyDb fun b db => db.subBalance b caller amount
  else return ()

/-- `Undelegate`. -/
def handleUndelegate (delegator validator : Address) (amount : Nat) :
    Action Context Err Unit := do
  checkDelegator caller origin delegator amount
  withStakeAuthz env caller origin .undelegate delegator validator amount
    (modules.undelegate delegator validator amount)

/-- `Redelegate`. -/
def handleRedelegate (delegator validatorSrc validatorDst : Address) (amount : Nat) :
    Action Context Err Unit := do
  checkDelegator caller origin delegator amount
  withStakeAuthz env caller origin .beginRedelegate delegator validatorDst amount
    (modules.beginRedelegate delegator validatorSrc validatorDst amount)

/-- `CancelUnbondingDelegation`. -/
def handleCancelUnbondingDelegation (delegator validator : Address) (amount : Nat)
    (creationHeight : Int) : Action Context Err Unit := do
  checkDelegator caller origin delegator amount
  .rejectIf (creationHeight ≤ 0) (.rejected "invalid height")
  withStakeAuthz env caller origin .cancelUnbondingDelegation delegator validator amount
    (modules.cancelUnbondingDelegation delegator validator amount creationHeight)

/-! ## Distribution -/

/-- The account acted for is the caller or the origin. -/
def checkOrigin (account : Address) : Action Context Err Unit :=
  .rejectIf (caller ≠ account ∧ origin ≠ account) (.differentOrigin origin account)

/-- The loop of `ClaimRewards`. -/
def withdrawAll (delegator : Address) : List Address → Action Context Err Unit
  | [] => pure ()
  | v :: vs => do
    let _ ← modules.withdrawDelegationRewards delegator v
    withdrawAll delegator vs

/-- `ClaimRewards`. -/
def handleClaimRewards (delegator : Address) (maxRetrieve : Nat) : Action Context Err Unit := do
  .rejectIf (delegator = .zero) (.invalidDelegator delegator)
  checkOrigin caller origin delegator
  let s ← Action.gets Context.staking
  withdrawAll modules delegator (s.delegatorValidators delegator maxRetrieve)

/-- `WithdrawDelegatorRewards`: a caller that withdraws for itself has the first coin of the
rewards added to its balance in the StateDB. -/
def handleWithdrawDelegatorRewards (delegator validator : Address) : Action Context Err Unit := do
  .rejectIf (delegator = .zero) (.invalidDelegator delegator)
  checkOrigin caller origin delegator
  let coins ← modules.withdrawDelegationRewards delegator validator
  if caller = delegator then
    modifyDb fun b db => db.addBalance b caller ((coins.head?.map Coin.amount).getD 0 : Nat)
  else return ()

/-- `WithdrawValidatorCommission`. -/
def handleWithdrawValidatorCommission (validator : Address) : Action Context Err Unit := do
  checkOrigin caller origin validator
  let _ ← modules.withdrawValidatorCommission validator
  return ()

/-! ## ICS-20 -/

/-- `Transfer`: a caller that sends its own tokens has the amount taken off its balance in
the StateDB when the token is the bond denomination. -/
def handleTransfer (msg : MsgTransfer) : Action Context Err Unit := do
  .rejectIf (msg.token.amount = 0) .invalidAmount
  .rejectIf (env.hasChannel msg.sourcePort msg.sourceChannel = false)
    (.channelNotFound msg.sourcePort msg.sourceChannel)
  .rejectIf (caller ≠ msg.sender ∧ origin ≠ msg.sender)
    (.differentOriginFromSender origin msg.sender)
  let resp ← onGrants (checkAndAcceptAuthorizationIfNeeded env.now caller origin msg)
  transfer env modules msg
  onGrants (updateGrantIfNeeded env.now caller origin resp)
  if caller = msg.sender ∧ (resolveDenom env msg).token.denom = env.bondDenom then
    modifyDb fun b db => db.subBalance b caller msg.token.amount
  else return ()

end

/-! ## Run -/

/-- The write-back at the start of `Run`. -/
def commit (k : Keeper) (env : Env) : Action Context Err Unit :=
  .zoom (fun s : Context => (s.db, s.backend))
    (fun s p => { s with db := p.1, backend := p.2 }) .backend
    (Evm.StateDB.commit k.evm env.refuses)

/-- The method of a call. -/
def execute (modules : Modules) (env : Env) (c : Call) : Action Context Err Unit :=
  match c.method with
  | .delegate delegator validator amount =>
    handleDelegate modules env c.caller c.origin delegator validator amount
  | .undelegate delegator validator amount =>
    handleUndelegate modules env c.caller c.origin delegator validator amount
  | .redelegate delegator validatorSrc validatorDst amount =>
    handleRedelegate modules env c.caller c.origin delegator validatorSrc validatorDst amount
  | .cancelUnbondingDelegation delegator validator amount creationHeight =>
    handleCancelUnbondingDelegation modules env c.caller c.origin delegator validator amount
      creationHeight
  | .claimRewards delegator maxRetrieve =>
    handleClaimRewards modules c.caller c.origin delegator maxRetrieve
  | .withdrawDelegatorRewards delegator validator =>
    handleWithdrawDelegatorRewards modules c.caller c.origin delegator validator
  | .withdrawValidatorCommission validator =>
    handleWithdrawValidatorCommission modules c.caller c.origin validator
  | .transfer msg => handleTransfer modules env c.caller c.origin msg

/-- `Run` of the precompile the method belongs to. -/
def run (k : Keeper) (modules : Modules) (env : Env) (c : Call) : Action Context Err Unit := do
  .rejectIf c.readOnly .writeProtection
  commit k env
  execute modules env c

end HyperPax.Cosmos
