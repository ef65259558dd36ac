/-
  Cosmos/Authz.lean --- coins, authorizations and grants, as the precompiles use them.

  Source: precompiles/authorization/types.go, precompiles/staking/approve.go
  (UpdateStakingAuthorization), precompiles/ics20/{approve_common,types}.go
  (AcceptGrant, UpdateGrant and their `IfNeeded` forms).  The grant store and the two
  `Accept` methods are the SDK's and ibc-go's.

  A grant is stored under its grantee, its granter and the message type of its
  authorization.  An authorization is consulted before the message is executed and
  updated after it.
-/
import HyperPax.Base.Address
import HyperPax.Lib.Action

set_option autoImplicit false

namespace HyperPax.Cosmos

open Lib

/-! ## Coins -/

structure Coin where
  denom : String
  amount : Nat
deriving DecidableEq

/-- `sdk.Coins`: one entry per denomination, sorted by denomination. -/
abbrev Coins : Type := List Coin

/-- `AmountOf`. -/
def amountOf (coins : Coins) (denom : String) : Nat :=
  ((coins.find? fun c => c.denom = denom).map Coin.amount).getD 0

/-- `IsZero`. -/
def isZero (coins : Coins) : Bool :=
  coins.all fun c => c.amount = 0

/-- `SafeSub` of one coin; `none` when the result has a negative amount.  Coins that become
zero are dropped. -/
def safeSub (coins : Coins) (coin : Coin) : Option Coins :=
  if amountOf coins coin.denom < coin.amount then none
  else
    some ((coins.map fun c =>
      if c.denom = coin.denom then { c with amount := c.amount - coin.amount } else c).filter
        fun c => c.amount ≠ 0)

/-! ## Authorizations -/

/-- The message types that can be granted. -/
inductive MsgType where
  | delegate
  | undelegate
  | beginRedelegate
  | cancelUnbondingDelegation
  | transfer
  | fundVestingAccount
  | clawback
  | updateVestingFunder
deriving DecidableEq

/-- `StakeAuthorization`; without `maxTokens` there is no limit. -/
structure StakeAuthorization where
  maxTokens : Option Nat
  allowList : List Address
  denyList : List Address
  authorizationType : MsgType
deriving DecidableEq

/-- `Allocation` of a `TransferAuthorization`. -/
structure Allocation where
  sourcePort : String
  sourceChannel : String
  spendLimit : Coins
  allowList : List String
deriving DecidableEq

/-- The authorizations that the precompiles know. -/
inductive Authorization where
  | stake (a : StakeAuthorization)
  | transfer (allocations : List Allocation)
  | generic (msg : MsgType)
deriving DecidableEq

/-- The message type an authorization is for. -/
def Authorization.msgType : Authorization → MsgType
  | .stake a => a.authorizationType
  | .transfer _ => .transfer
  | .generic msg => msg

/-- `Grant`: an authorization, and when it expires. -/
structure Grant where
  authorization : Authorization
  expiration : Option Nat
deriving DecidableEq

/-- The grants, by grantee, granter and message type. -/
abbrev Grants : Type := Address → Address → MsgType → Option Grant

/-- The errors of the authorizations. -/
inductive AuthzError where
  | doesNotExistOrExpired (msg : MsgType) (grantee : Address)
  | transferDoesNotExistOrExpired (grantee granter : Address)
  | unknownAuthorizationType
  | exceededAllowance (amount limit : Nat)
  | unauthorized
  | spendLimit
  | noAllocation
  | invalidExpiration
  | notFound
deriving DecidableEq

/-! ## The grant store -/

/-- `GetAuthorization`: an expired grant is as good as none. -/
def getAuthorization (grants : Grants) (now : Nat) (grantee granter : Address) (msg : MsgType) :
    Option Grant :=
  (grants grantee granter msg).filter fun g => g.expiration.all fun t => now ≤ t

def setGrant (grants : Grants) (grantee granter : Address) (msg : MsgType) (g : Option Grant) :
    Grants :=
  fun e r m => if e = grantee ∧ r = granter ∧ m = msg then g else grants e r m

/-- `SaveGrant`: the expiration must lie in the future. -/
def saveGrant (now : Nat) (grantee granter : Address) (authorization : Authorization)
    (expiration : Option Nat) : Action Grants AuthzError Unit := do
  .rejectIf (∃ t ∈ expiration, t ≤ now) .invalidExpiration
  .modify fun grants =>
    setGrant grants grantee granter authorization.msgType (some ⟨authorization, expiration⟩)

/-- `DeleteGrant`. -/
def deleteGrant (grantee granter : Address) (msg : MsgType) : Action Grants AuthzError Unit := do
  let stored ← .gets fun grants => grants grantee granter msg
  .rejectIf (stored = none) .notFound
  .modify fun grants => setGrant grants grantee granter msg none

/-- `CheckAuthzExists`. -/
def checkAuthzExists (now : Nat) (grantee granter : Address) (msg : MsgType) :
    Action Grants AuthzError Grant := do
  let found ← .gets fun grants => getAuthorization grants now grantee granter msg
  .orFail found (.doesNotExistOrExpired msg grantee)

/-! ## Staking authorizations -/

/-- `CheckAuthzAndAllowanceForGranter`. -/
def checkAuthzAndAllowanceForGranter (now : Nat) (grantee granter : Address) (amount : Nat)
    (msg : MsgType) : Action Grants AuthzError (StakeAuthorization × Option Nat) := do
  let grant ← checkAuthzExists now grantee granter msg
  match grant.authorization with
  | .stake a => do
    .rejectIf (∃ limit ∈ a.maxTokens, limit < amount)
      (.exceededAllowance amount (a.maxTokens.getD 0))
    return (a, grant.expiration)
  | _ => .fail .unknownAuthorizationType

/-- What `Accept` leaves of an authorization: it is used up, kept as it is, or updated. -/
inductive AcceptResponse where
  | delete
  | keep
  | updated (a : Authorization)

/-- `Accept` of a `StakeAuthorization` for an amount staked with a validator. -/
def StakeAuthorization.accept (a : StakeAuthorization) (validator : Address) (amount : Nat) :
    Except AuthzError AcceptResponse :=
  if validator ∈ a.denyList then .error .unauthorized
  else if a.allowList ≠ [] ∧ validator ∉ a.allowList then .error .unauthorized
  else
    match a.maxTokens with
    | none => .ok (.updated (.stake a))
    | some limit =>
      if limit < amount then .error .spendLimit
      else if limit = amount then .ok .delete
      else .ok (.updated (.stake { a with maxTokens := some (limit - amount) }))

/-- Store what is left of the grant. -/
def applyResponse (now : Nat) (grantee granter : Address) (msg : MsgType)
    (expiration : Option Nat) : AcceptResponse → Action Grants AuthzError Unit
  | .delete => deleteGrant grantee granter msg
  | .keep => pure ()
  | .updated a => saveGrant now grantee granter a expiration

/-- `UpdateStakingAuthorization`. -/
def updateStakingAuthorization (now : Nat) (grantee granter : Address) (a : StakeAuthorization)
    (expiration : Option Nat) (msg : MsgType) (validator : Address) (amount : Nat) :
    Action Grants AuthzError Unit :=
  match a.accept validator amount with
  | .error e => .fail e
  | .ok response => applyResponse now grantee granter msg expiration response

/-! ## Transfer authorizations -/

/-- `MsgTransfer`, without its timeout and memo. -/
structure MsgTransfer where
  sourcePort : String
  sourceChannel : String
  token : Coin
  sender : Address
  receiver : String
deriving DecidableEq

/-- `UnboundedSpendLimit`: the largest `uint256` stands for no limit. -/
def unboundedSpendLimit : Nat := 2 ^ 256 - 1

/-- `Accept` of one allocation that matches the port and the channel: what is left of
it, if anything. -/
def Allocation.accept (a : Allocation) (msg : MsgTransfer) :
    Except AuthzError (Option Allocation) :=
  if a.allowList ≠ [] ∧ msg.receiver ∉ a.allowList then .error .unauthorized
  else
    match safeSub a.spendLimit msg.token with
    | none => .error .spendLimit
    | some left => .ok (if isZero left then none else some { a with spendLimit := left })

/-- `Accept` of a `TransferAuthorization`: the first matching allocation decides. -/
def acceptTransfer (allocations : List Allocation) (msg : MsgTransfer) :
    Except AuthzError AcceptResponse :=
  let idx := allocations.findIdx fun a =>
    a.sourceChannel = msg.sourceChannel ∧ a.sourcePort = msg.sourcePort
  match allocations[idx]? with
  | none => .error .noAllocation
  | some a =>
    if (a.allowList = [] ∨ msg.receiver ∈ a.allowList) ∧
        amountOf a.spendLimit msg.token.denom = unboundedSpendLimit then .ok .keep
    else
      match a.accept msg with
      | .error e => .error e
      | .ok (some left) => .ok (.updated (.transfer (allocations.set idx left)))
      | .ok none =>
        if allocations.eraseIdx idx = [] then .ok .delete
        else .ok (.updated (.transfer (allocations.eraseIdx idx)))

/-- `CheckAndAcceptAuthorizationIfNeeded`, with `AcceptGrant` (whose check of `resp.Accept`
never fails: a transfer that is not accepted is an error).  What comes back is empty when
the caller is the origin. -/
def checkAndAcceptAuthorizationIfNeeded (now : Nat) (caller origin : Address)
    (msg : MsgTransfer) : Action Grants AuthzError (Option (AcceptResponse × Option Nat)) := do
  if caller = origin then return none
  else do
    let found ← .gets fun grants => getAuthorization grants now caller origin .transfer
    let grant ← .orFail found (.transferDoesNotExistOrExpired caller origin)
    match grant.authorization with
    | .transfer allocations =>
      match acceptTransfer allocations msg with
      | .ok response => return some (response, grant.expiration)
      | .error e => .fail e
    | _ => .fail .unknownAuthorizationType

/-- `UpdateGrantIfNeeded`, with `UpdateGrant`. -/
def updateGrantIfNeeded (now : Nat) (caller origin : Address) :
    Option (AcceptResponse × Option Nat) → Action Grants AuthzError Unit
  | none => pure ()
  | some (response, expiration) => applyResponse now caller origin .transfer expiration response

end HyperPax.Cosmos
