/-
  Cosmos/Modules.lean --- staking, distribution and transfer, as the precompiles meet them.

  Source: x/staking/keeper/msg_server.go and x/ibc/transfer/keeper/msg_server.go, which
  wrap the SDK's staking and ibc-go's transfer message server; x/distribution is the SDK's.

  The SDK and ibc-go are third-party code: their message servers are a parameter
  (`Modules`).  What is assumed of them is said in `Cosmos.Payments`, and `Cosmos.Sdk` has
  an instance.  The two wrappers are modelled here.
-/
import HyperPax.Cosmos.Authz
import HyperPax.Evm.StateDB
import HyperPax.Lib.Payments

set_option autoImplicit false

namespace HyperPax.Cosmos

open Lib Function Action

/-! ## State -/

inductive Status where
  | bonded
  | unbonding
  | unbonded
deriving DecidableEq

/-- The staking and distribution stores.  Validators go by their operator address and
are listed in the order of their keys. -/
structure Staking where
  validators : List Address
  nodup : validators.Nodup
  status : Address → Status
  /-- the rewards a delegation would be paid now; `none` when there is no delegation -/
  pending : Address → Address → Option Coins
  withdrawAddrs : Address → Option Address
  commission : Address → Coins

namespace Staking

/-- `GetDelegatorWithdrawAddr`. -/
def withdrawAddr (s : Staking) (delegator : Address) : Address :=
  (s.withdrawAddrs delegator).getD delegator

/-- `GetDelegatorValidators`. -/
def delegatorValidators (s : Staking) (delegator : Address) (maxRetrieve : Nat) : List Address :=
  (s.validators.filter fun v => (s.pending delegator v).isSome).take maxRetrieve

/-- The delegation has been paid out, and is kept or removed. -/
def setPending (s : Staking) (delegator validator : Address) (rewards : Option Coins) : Staking :=
  { s with
    pending := fun d v => if d = delegator ∧ v = validator then rewards else s.pending d v }

/-- `RemoveValidator`. -/
def removeValidator (s : Staking) (validator : Address) : Staking :=
  { s with
    validators := s.validators.erase validator
    nodup := s.nodup.erase validator
    commission := update s.commission validator [] }

end Staking

/-- The stores a call works on, and the StateDB of the running transaction. -/
structure Context where
  backend : Evm.Backend
  db : Evm.StateDB
  staking : Staking
  grants : Grants

/-- The module accounts. -/
structure Keeper where
  evm : Evm.Keeper
  distribution : Address
  bondedPool : Address
  notBondedPool : Address
  transferModule : Address
  escrowAddress : String → String → Address

/-- The parameters and the answers of the modules during one call. -/
structure Env where
  now : Nat
  evmDenom : String
  bondDenom : String
  baseDenom : String
  refuses : Refusal
  /-- why the module turns the message down, if it does -/
  rejects : Option String
  /-- what a clawback vesting account holds unvested; `none` for any other account -/
  unvested : Address → Option Nat
  /-- the tokens that the unbonded shares are worth -/
  returned : Nat
  /-- no shares of the delegation are left after unbonding -/
  closesDelegation : Bool
  /-- no shares of the validator are left after unbonding -/
  emptiesValidator : Bool
  hasChannel : String → String → Bool
  /-- the denomination of the enabled token pair registered under a denomination or a
  contract -/
  pairDenom : String → Option String
  /-- balances in the other denominations -/
  balanceOf : String → Address → Nat
  /-- what converting ERC-20 tokens moves in the EVM denomination -/
  conversion : List (Payment Address)
  /-- the token came in over this port and channel -/
  isVoucher : String → String → String → Bool

/-- The errors of the precompiles. -/
inductive Err where
  | writeProtection
  | invalidDelegator (delegator : Address)
  | invalidAmount
  | differentOriginFromDelegator (origin delegator : Address)
  | differentOrigin (origin delegator : Address)
  | differentOriginFromSender (origin sender : Address)
  | channelNotFound (port channel : String)
  | unknownAddress (a : Address)
  | insufficientVestedCoins (amount : Nat)
  | authz (cause : AuthzError)
  | rejected (reason : String)
  | noValidator
  | noDelegation
  | noCommission
  | backend (cause : Evm.BackendError)
deriving DecidableEq

def onGrants {α : Type} (x : Action Grants AuthzError α) : Action Context Err α :=
  zoom Context.grants (fun s g => { s with grants := g }) .authz x

def onBackend {α : Type} (x : Action Evm.Backend Evm.BackendError α) : Action Context Err α :=
  zoom Context.backend (fun s b => { s with backend := b }) .backend x

/-! ## The bank -/

variable (env : Env)

/-- One payment in the EVM denomination. -/
def pay (p : Payment Address) : Action Context Err Unit :=
  match p.src, p.dst with
  | some src, some dst => onBackend (Evm.send env.refuses src dst p.amount)
  | none, some dst =>
    onBackend (do
      Evm.mintCoins ⟨dst⟩ p.amount
      .modify fun b =>
        { b with accounts := update b.accounts dst (some ((b.accounts dst).getD .fresh)) })
  | some src, none => onBackend (Evm.burnCoins ⟨src⟩ p.amount)
  | none, none => pure ()

def payAll : List (Payment Address) → Action Context Err Unit
  | [] => pure ()
  | p :: ps => do
    pay env p
    payAll ps

/-! ## The message servers -/

/-- What the precompiles call: the message servers of the SDK and of ibc-go. -/
structure Modules where
  delegate (delegator validator : Address) (amount : Nat) : Action Context Err Unit
  undelegate (delegator validator : Address) (amount : Nat) : Action Context Err Unit
  beginRedelegate (delegator validatorSrc validatorDst : Address) (amount : Nat) :
    Action Context Err Unit
  cancelUnbondingDelegation (delegator validator : Address) (amount : Nat)
    (creationHeight : Int) : Action Context Err Unit
  /-- what was paid -/
  withdrawDelegationRewards (delegator validator : Address) : Action Context Err Coins
  withdrawValidatorCommission (validator : Address) : Action Context Err Coins
  transfer (msg : MsgTransfer) : Action Context Err Unit

variable (modules : Modules)

/-! ## Staking -/

/-- `validateDelegationAmountNotUnvested`: a vesting account delegates what it holds beyond
its unvested coins. -/
def validateDelegationAmountNotUnvested (delegator : Address) (amount : Nat) :
    Action Context Err Unit := do
  let b ← gets Context.backend
  rejectIf (b.accounts delegator = none) (.unknownAddress delegator)
  let balance :=
    if env.bondDenom = env.evmDenom then b.bank delegator
    else env.balanceOf env.bondDenom delegator
  .rejectIf (∃ unvested ∈ env.unvested delegator, balance - unvested < amount)
    (.insufficientVestedCoins amount)

/-- `Delegate`. -/
def delegate (delegator validator : Address) (amount : Nat) : Action Context Err Unit := do
  validateDelegationAmountNotUnvested env delegator amount
  modules.delegate delegator validator amount

/-! ## Transfer -/

/-- The message `Transfer` works with: the token of a registered pair goes by the pair's
denomination.  The handler sees the change, since the message is passed by reference. -/
def resolveDenom (msg : MsgTransfer) : MsgTransfer :=
  match env.pairDenom (msg.token.denom.dropPrefix "erc20/").copy with
  | none => msg
  | some denom => { msg with token := { msg.token with denom := denom } }

/-- The token is one of a registered pair and the sender is short of coins, so that
ERC-20 tokens are converted first. -/
def Converts (bank : Ledger) (msg : MsgTransfer) : Prop :=
  ∃ denom ∈ env.pairDenom (msg.token.denom.dropPrefix "erc20/").copy,
    (if denom = env.evmDenom then bank msg.sender else env.balanceOf denom msg.sender) <
      msg.token.amount
deriving Decidable

/-- `Transfer`. -/
def transfer (msg : MsgTransfer) : Action Context Err Unit := do
  let bank ← gets fun s => s.backend.bank
  payAll env (if Converts env bank msg then env.conversion else [])
  modules.transfer (resolveDenom env msg)

end HyperPax.Cosmos
