/-
  Vesting/Precompile.lean --- the vesting precompile.

  Source: precompiles/vesting/{tx,types,approve}.go.

  A contract call has an origin, the account that signed the transaction, and an
  immediate caller, which is the origin or a contract.  Three of the methods act for a
  funder, which is one of their arguments.
-/
import HyperPax.Lib.Transition
import HyperPax.Vesting.Keeper

set_option autoImplicit false

namespace HyperPax.Vesting

open Lib

/-- The methods that act for a funder. -/
inductive Method where
  | fundVestingAccount
  | clawback
  | updateVestingFunder
deriving DecidableEq

def Method.msgType : Method → Cosmos.MsgType
  | .fundVestingAccount => .fundVestingAccount
  | .clawback => .clawback
  | .updateVestingFunder => .updateVestingFunder

/-- The calls of the precompile that change the state; `startTime` is a `uint64`. -/
inductive Call (D : Type) where
  | createClawbackVestingAccount (funder vesting : Address) (enableGovClawback : Bool)
  | fundVestingAccount (funder vesting : Address) (startTime : Uint 64)
      (lockupPeriods vestingPeriods : List (RawPeriod D))
  | clawback (funder account dest : Address)
  | updateVestingFunder (funder newFunder vesting : Address)
  | convertVestingAccount (vesting : Address)

variable {D : Type}

/-- The method and the funder of a call that acts for one. -/
def Call.actsFor : Call D → Option (Method × Address)
  | .fundVestingAccount funder _ _ _ _ => some (.fundVestingAccount, funder)
  | .clawback funder _ _ => some (.clawback, funder)
  | .updateVestingFunder funder _ _ => some (.updateVestingFunder, funder)
  | .createClawbackVestingAccount _ _ _ => none
  | .convertVestingAccount _ => none

/-- The granter has given the grantee an authorization for the messages of a method that has
not expired. -/
def Granted (grants : Cosmos.Grants) (now : Time) (m : Method) (granter grantee : Address) : Prop :=
  (Cosmos.getAuthorization grants now.val.toNat grantee granter m.msgType).isSome
deriving Decidable

/-- The check of the three methods: a direct call is for the origin itself, and a contract needs
an authorization from the origin. -/
def checkCaller (s : State D) (m : Method) (origin caller funder : Address) (different : Error) :
    Except Error Unit := do
  require (¬ (caller = origin ∧ origin ≠ funder)) different
  require (caller ≠ origin → Granted s.grants s.now m origin caller)
    (.authzDoesNotExistOrExpired caller origin)

variable [Fintype D] [LinearOrder D]

/-- A call of the precompile, given the coins that the vesting account has delegated. -/
def call (p : Params D) (s : State D) (origin caller : Address) (delegatedAmt : Nat) :
    Call D → Except Error (State D)
  | .createClawbackVestingAccount funder vesting enableGovClawback => do
    let msg : MsgCreateClawbackVestingAccount := ⟨funder, vesting, enableGovClawback⟩
    msg.validateBasic
    require (origin = vesting) (.differentFromOrigin origin vesting)
    createClawbackVestingAccount p s msg
  | .fundVestingAccount funder vesting startTime lockupPeriods vestingPeriods => do
    let msg ← MsgFundVestingAccount.validateBasic funder vesting (Sint.wrap startTime.val)
      lockupPeriods vestingPeriods
    checkCaller s .fundVestingAccount origin caller funder (.differentFromOrigin origin funder)
    fundVestingAccount p s delegatedAmt msg
  | .clawback funder account dest => do
    checkCaller s .clawback origin caller funder (.differentFunderOrigin origin funder)
    let (s, _) ← clawback p s ⟨funder, account, some dest⟩
    return s
  | .updateVestingFunder funder newFunder vesting => do
    let msg : MsgUpdateVestingFunder := ⟨funder, newFunder, vesting⟩
    msg.validateBasic
    checkCaller s .updateVestingFunder origin caller funder (.differentFunderOrigin origin funder)
    updateVestingFunder p s msg
  | .convertVestingAccount vesting => convertVestingAccount s vesting

/-- What a call has written when its transfer of coins fails, or runs out of gas: a contract that
calls may go on, and the writes are not taken back.  Nothing is written before another error. -/
def leftover (p : Params D) (s : State D) (origin caller : Address) (delegatedAmt : Nat) :
    Call D → Option (State D)
  | .fundVestingAccount funder vesting startTime lockupPeriods vestingPeriods =>
    Except.toOption do
      let msg ← MsgFundVestingAccount.validateBasic funder vesting (Sint.wrap startTime.val)
        lockupPeriods vestingPeriods
      checkCaller s .fundVestingAccount origin caller funder (.differentFromOrigin origin funder)
      let (s, _) ← recordGrant p s delegatedAmt msg
      return s
  | .clawback funder account dest =>
    Except.toOption do
      checkCaller s .clawback origin caller funder (.differentFunderOrigin origin funder)
      let (va, _) ← checkClawback p s ⟨funder, account, some dest⟩
      let _ ← orRevert (va.computeClawback s.now) .panicked
      return convertToEth s account
  | _ => none

/-! ## Runs -/

/-- What happens on the chain: calls of the precompile, those that fail and leave something, grants
stored or removed by their granter, transfers by their sender, and the passing of time. -/
inductive Label (D : Type) where
  | call (origin caller : Address) (delegatedAmt : Nat) (c : Call D)
  | failedCall (origin caller : Address) (delegatedAmt : Nat) (c : Call D)
  | grant (granter grantee : Address) (msg : Cosmos.MsgType) (g : Option Cosmos.Grant)
  | send (sender recipient : Address) (amount : Coins D)
  | advance (now : Time)

/-- One step; a call that fails and leaves nothing is none. -/
def step (p : Params D) (s : State D) : Label D → Option (State D)
  | .call origin caller delegatedAmt c => (call p s origin caller delegatedAmt c).toOption
  | .failedCall origin caller delegatedAmt c => leftover p s origin caller delegatedAmt c
  | .grant granter grantee msg g =>
    some { s with grants := Cosmos.setGrant s.grants grantee granter msg g }
  | .send sender recipient amount => (sendCoins s sender recipient amount).toOption
  | .advance now => if s.now.val ≤ now.val then some { s with now := now } else none

end HyperPax.Vesting
