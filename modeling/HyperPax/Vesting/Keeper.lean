/-
  Vesting/Keeper.lean --- the messages of the vesting module.

  Source: x/vesting/keeper/{msg_server,utils,gov}.go, x/vesting/types/msg.go.

  The bank, the account store and the community pool are part of the state.  The keeper
  compares the funder of a message with the funder of the account; who sent the message
  is left to the layers above it.

  Amounts are unbounded, and of an account only its type is kept, with the schedules of
  a clawback vesting account.
-/
import HyperPax.Cosmos.Authz
import HyperPax.Lib.Revert
import HyperPax.Vesting.Account

set_option autoImplicit false

namespace HyperPax.Vesting

open Lib Function

/-- The stored accounts, by their type. -/
inductive Account (D : Type) where
  | eth (isContract : Bool)
  | clawback (va : ClawbackVestingAccount D)
  | other

/-- What is fixed: the denomination of the stake, the blocked addresses, the authority of
the keeper (the governance module) and the address of the distribution module. -/
structure Params (D : Type) where
  bondDenom : D
  blockedAddr : Address → Bool
  authority : Address
  distribution : Address

/-- What the module reads and writes, with the block time and the grants. -/
structure State (D : Type) where
  now : Time
  accounts : Address → Option (Account D)
  balances : Address → Coins D
  communityPool : Coins D
  govClawbackDisabled : Address → Bool
  activeClawbackProposal : Address → Bool
  grants : Cosmos.Grants

/-! ## Errors -/

/-- The errors, with the values their texts show. -/
inductive Error where
  | zeroAddress (field : String)
  | invalidPeriodLength (length : Int) (index : Nat)
  | invalidCoins
  | schedulesMissing
  | totalsDiffer
  | sameFunder
  | blockedConversion (vesting : Address)
  | accountDoesNotExist (vesting : Address)
  | alreadyClawback (vesting : Address)
  | notEthAccount (vesting : Address)
  | contractAccount (vesting : Address)
  | blockedVesting (vesting : Address)
  | unknownAddress (account : Address)
  | notSubjectToClawback (account : Address)
  | differentGrantor (vesting funder : Address)
  | vestingLockup (vestingStart lockupStart : Time)
  | clawbackDisabled (account : Address)
  | blockedDest (dest : Option Address)
  | noPeriods (account : Address)
  | notSubjectToGovClawback (account : Address)
  | notOriginalFunder (funder : Address)
  | updateDisabled (vesting : Address)
  | blockedFunder (funder : Address)
  | notCurrentFunder (funder : Address)
  | vestingCoinsLeft (vesting : Address)
  | lockedCoinsLeft (vesting : Address)
  | insufficientFunds
  | panicked
  | differentFromOrigin (origin initiator : Address)
  | differentFunderOrigin (origin funder : Address)
  | authzDoesNotExistOrExpired (grantee granter : Address)

variable {D : Type} {a : Address}

/-! ## Accounts -/

def setAccount (s : State D) (a : Address) (acc : Account D) : State D :=
  { s with accounts := update s.accounts a (some acc) }

theorem setAccount_of_ne (s : State D) {b : Address} (acc : Account D) (h : b ≠ a) :
    (setAccount s a acc).accounts b = s.accounts b :=
  update_of_ne h _ _

/-- The times that can be stored: the years 1 to 9999. -/
def Storable (t : Time) : Prop := -62135596800 ≤ t.val ∧ t.val < 253402300800
deriving Decidable

/-- `SetAccount` of a clawback vesting account; it panics on a start time that has no
encoding. -/
def setVestingAccount (s : State D) (a : Address) (va : ClawbackVestingAccount D) :
    Except Error (State D) := do
  require (Storable va.startTime) .panicked
  return setAccount s a (.clawback va)

/-- `GetClawbackVestingAccount`. -/
def getClawbackVestingAccount (s : State D) (a : Address) :
    Except Error (ClawbackVestingAccount D) :=
  match s.accounts a with
  | none => .error (.unknownAddress a)
  | some (.clawback va) => .ok va
  | some _ => .error (.notSubjectToClawback a)

theorem getClawbackVestingAccount_eq_ok {s : State D} {va : ClawbackVestingAccount D} :
    getClawbackVestingAccount s a = .ok va ↔ s.accounts a = some (.clawback va) := by
  unfold getClawbackVestingAccount
  split <;> simp_all

/-- The conversion to an account of the default type, with the entry for governance
clawbacks removed. -/
def convertToEth (s : State D) (a : Address) : State D :=
  { setAccount s a (.eth false) with
    govClawbackDisabled := update s.govClawbackDisabled a false }

variable [Fintype D]

/-! ## The bank -/

/-- `LockedCoins` of the bank's keeper; with valid coins that of an account does not panic. -/
def lockedOf (s : State D) (a : Address) : Coins D :=
  match s.accounts a with
  | some (.clawback va) => (va.lockedCoins s.now).getD 0
  | _ => 0

def moveCoins (balances : Address → Coins D) (src dst : Address) (amount : Coins D) :
    Address → Coins D :=
  fun a d => balances a d - (if a = src then amount d else 0) + if a = dst then amount d else 0

/-- `SendCoins`: an account that is missing is created. -/
def sendCoins (s : State D) (src dst : Address) (amount : Coins D) : Except Error (State D) := do
  require (∀ d, 0 < amount d → lockedOf s src d + amount d ≤ s.balances src d) .insufficientFunds
  return { s with
    balances := moveCoins s.balances src dst amount
    accounts := update s.accounts dst (some ((s.accounts dst).getD (.eth false))) }

/-- `FundCommunityPool`. -/
def fundCommunityPool (p : Params D) (s : State D) (amount : Coins D) (sender : Address) :
    Except Error (State D) := do
  let s ← sendCoins s sender p.distribution amount
  return { s with communityPool := s.communityPool + amount }

/-! ## Creating and funding an account -/

structure MsgCreateClawbackVestingAccount where
  funderAddress : Address
  vestingAddress : Address
  enableGovClawback : Bool

def MsgCreateClawbackVestingAccount.validateBasic (msg : MsgCreateClawbackVestingAccount) :
    Except Error Unit := do
  require (msg.funderAddress ≠ .zero) (.zeroAddress "funder")
  require (msg.vestingAddress ≠ .zero) (.zeroAddress "vesting")

/-- The unfunded account; its start time is that of `time.Time{}`. -/
def newVestingAccount (funder : Address) : ClawbackVestingAccount D where
  funderAddress := funder
  originalVesting := 0
  delegatedFree := 0
  delegatedVesting := 0
  startTime := ⟨-62135596800, by decide, by decide⟩
  endTime := .zero
  lockupPeriods := []
  vestingPeriods := []

omit [Fintype D] in
theorem storable_newVestingAccount (funder : Address) :
    Storable (newVestingAccount funder : ClawbackVestingAccount D).startTime :=
  ⟨le_rfl, by norm_num [newVestingAccount]⟩

/-- The account must be that of a user, of the default type. -/
def checkConvertible (s : State D) (a : Address) : Except Error Unit :=
  match s.accounts a with
  | none => .error (.accountDoesNotExist a)
  | some (.clawback _) => .error (.alreadyClawback a)
  | some .other => .error (.notEthAccount a)
  | some (.eth isContract) => require (isContract = false) (.contractAccount a)

/-- `CreateClawbackVestingAccount`. -/
def createClawbackVestingAccount (p : Params D) (s : State D)
    (msg : MsgCreateClawbackVestingAccount) : Except Error (State D) := do
  require (p.blockedAddr msg.vestingAddress = false) (.blockedConversion msg.vestingAddress)
  checkConvertible s msg.vestingAddress
  let s ← setVestingAccount s msg.vestingAddress (newVestingAccount msg.funderAddress)
  return { s with
    govClawbackDisabled := update s.govClawbackDisabled msg.vestingAddress
      (s.govClawbackDisabled msg.vestingAddress || !msg.enableGovClawback) }

structure MsgFundVestingAccount (D : Type) where
  funderAddress : Address
  vestingAddress : Address
  startTime : Time
  lockupPeriods : List (Period D)
  vestingPeriods : List (Period D)

/-- A period as it is sent, with any list of coins. -/
structure RawPeriod (D : Type) where
  length : Time
  amount : List (D × Nat)

/-- `Coins.IsValid`: positive amounts, sorted by denomination. -/
def RawPeriod.IsValid [LinearOrder D] (period : RawPeriod D) : Prop :=
  (period.amount.map Prod.fst).Pairwise (· < ·) ∧ ∀ coin ∈ period.amount, 0 < coin.2

instance [LinearOrder D] (period : RawPeriod D) : Decidable period.IsValid :=
  inferInstanceAs (Decidable (_ ∧ _))

/-- The coins by denomination. -/
def RawPeriod.read [DecidableEq D] (period : RawPeriod D) : Period D where
  length := period.length
  amount d := (period.amount.map fun coin => if coin.1 = d then coin.2 else 0).sum

/-- One of the two loops of `ValidateBasic`, from a given index. -/
def validatePeriods [LinearOrder D] : Nat → List (RawPeriod D) → Except Error (List (Period D))
  | _, [] => .ok []
  | i, period :: rest => do
    require (1 ≤ period.length.val) (.invalidPeriodLength period.length.val i)
    require period.IsValid .invalidCoins
    let rest ← validatePeriods (i + 1) rest
    return period.read :: rest

/-- `ValidateBasic`, which leaves a message with valid coins. -/
def MsgFundVestingAccount.validateBasic [LinearOrder D] (funder vesting : Address)
    (startTime : Time) (lockupPeriods vestingPeriods : List (RawPeriod D)) :
    Except Error (MsgFundVestingAccount D) := do
  require (vesting ≠ .zero) (.zeroAddress "vesting")
  let lockup ← validatePeriods 0 lockupPeriods
  let vested ← validatePeriods 0 vestingPeriods
  require (¬ (IsZero (totalAmount lockup) ∧ IsZero (totalAmount vested))) .schedulesMissing
  require (lockup.isEmpty ∨ vested.isEmpty ∨
    ∀ d, totalAmount lockup d = totalAmount vested d) .totalsDiffer
  return ⟨funder, vesting, startTime, lockup, vested⟩

/-- The schedules of a message and its coins: an absent schedule is an instant one. -/
def MsgFundVestingAccount.grant (msg : MsgFundVestingAccount D) :
    List (Period D) × List (Period D) × Coins D :=
  let vestingCoins := totalAmount msg.vestingPeriods
  let lockupCoins := totalAmount msg.lockupPeriods
  let (lockupPeriods, lockupCoins) :=
    if ¬ IsZero vestingCoins ∧ msg.lockupPeriods.isEmpty then
      ([⟨.zero, vestingCoins⟩], vestingCoins)
    else (msg.lockupPeriods, lockupCoins)
  let (vestingPeriods, vestingCoins) :=
    if ¬ IsZero lockupCoins ∧ msg.vestingPeriods.isEmpty then
      ([⟨.zero, lockupCoins⟩], lockupCoins)
    else (msg.vestingPeriods, vestingCoins)
  (lockupPeriods, vestingPeriods, vestingCoins)

variable (msg : MsgFundVestingAccount D)

theorem MsgFundVestingAccount.totalAmount_grant : totalAmount msg.grant.2.1 = msg.grant.2.2 := by
  simp only [MsgFundVestingAccount.grant]
  split <;> split <;> simp

theorem MsgFundVestingAccount.grant_coins (h : msg.vestingPeriods.isEmpty = false) :
    msg.grant.2.2 = totalAmount msg.vestingPeriods := by
  simp only [MsgFundVestingAccount.grant, h]
  simp

/-- The start time of an account before a grant: that of the grant if it is the first. -/
def grantedStart (va : ClawbackVestingAccount D) (grantStartTime : Time) : Time :=
  if va.lockupPeriods.isEmpty ∧ va.vestingPeriods.isEmpty then grantStartTime else va.startTime

/-- The account with the schedules and the coins of a grant merged into it. -/
def mergeGrant (va : ClawbackVestingAccount D) (newLockup newVesting : Schedule D)
    (grantCoins : Coins D) : ClawbackVestingAccount D :=
  { va with
    startTime := newLockup.startTime
    endTime := max64 newLockup.endTime newVesting.endTime
    lockupPeriods := newLockup.periods
    vestingPeriods := newVesting.periods
    originalVesting := va.originalVesting + grantCoins }

/-- `addGrant`, with the coins that are bonded or unbonding. -/
def addGrant [DecidableEq D] (p : Params D) (now : Time) (delegatedAmt : Nat)
    (va : ClawbackVestingAccount D) (grantStartTime : Time)
    (grantLockupPeriods grantVestingPeriods : List (Period D)) (grantCoins : Coins D) :
    Except Error (ClawbackVestingAccount D) := do
  let accStartTime := grantedStart va grantStartTime
  let delegated : Coins D := Pi.single p.bondDenom delegatedAmt
  let newLockup := disjunctPeriods accStartTime grantStartTime va.lockupPeriods grantLockupPeriods
  let newVesting :=
    disjunctPeriods accStartTime grantStartTime va.vestingPeriods grantVestingPeriods
  require (newLockup.startTime = newVesting.startTime)
    (.vestingLockup newVesting.startTime newLockup.startTime)
  let va := mergeGrant va newLockup newVesting grantCoins
  let unvested ← orRevert (va.getVestingCoins now) .panicked
  return { va with
    delegatedVesting := delegated ⊓ unvested
    delegatedFree := delegated - delegated ⊓ unvested }

theorem exists_addGrant [DecidableEq D] (p : Params D) (now : Time) (delegatedAmt : Nat)
    (va : ClawbackVestingAccount D) (grantStartTime : Time)
    (grantLockupPeriods : List (Period D)) {grantVestingPeriods : List (Period D)}
    {grantCoins : Coins D} (hva : totalAmount va.vestingPeriods ≤ va.originalVesting)
    (hgrant : totalAmount grantVestingPeriods ≤ grantCoins) :
    ∃ va', addGrant p now delegatedAmt va grantStartTime grantLockupPeriods grantVestingPeriods
        grantCoins = .ok va' ∧
      va'.startTime = min64 (grantedStart va grantStartTime) grantStartTime := by
  have hvesting := (mergeGrant va
    (disjunctPeriods (grantedStart va grantStartTime) grantStartTime va.lockupPeriods
      grantLockupPeriods)
    (disjunctPeriods (grantedStart va grantStartTime) grantStartTime va.vestingPeriods
      grantVestingPeriods) grantCoins).getVestingCoins_of_le now (by
    rw [mergeGrant, totalAmount_disjunctPeriods]
    exact add_le_add hva hgrant)
  rw [addGrant]
  exact ⟨_, require_bind_ok.mpr ⟨rfl, orRevert_bind_ok.mpr ⟨_, hvesting, rfl⟩⟩, rfl⟩

/-- `FundVestingAccount` up to its transfer: the grant is written, and its coins are not sent
yet. -/
def recordGrant [DecidableEq D] (p : Params D) (s : State D) (delegatedAmt : Nat)
    (msg : MsgFundVestingAccount D) : Except Error (State D × Coins D) := do
  require (p.blockedAddr msg.vestingAddress = false) (.blockedVesting msg.vestingAddress)
  let va ← getClawbackVestingAccount s msg.vestingAddress
  let (lockupPeriods, vestingPeriods, vestingCoins) := msg.grant
  require (msg.funderAddress = va.funderAddress)
    (.differentGrantor msg.vestingAddress va.funderAddress)
  let va ← addGrant p s.now delegatedAmt va msg.startTime lockupPeriods vestingPeriods vestingCoins
  let s ← setVestingAccount s msg.vestingAddress va
  return (s, vestingCoins)

/-- `FundVestingAccount`. -/
def fundVestingAccount [DecidableEq D] (p : Params D) (s : State D) (delegatedAmt : Nat)
    (msg : MsgFundVestingAccount D) : Except Error (State D) := do
  let (s, vestingCoins) ← recordGrant p s delegatedAmt msg
  sendCoins s msg.funderAddress msg.vestingAddress vestingCoins

/-! ## Clawback -/

/-- The destination is the funder if there is none. -/
structure MsgClawback where
  funderAddress : Address
  accountAddress : Address
  destAddress : Option Address

/-- The checks of a clawback that does not come from governance. -/
def checkFunderClawback (p : Params D) (s : State D) (msg : MsgClawback) (dest : Address) :
    Except Error Unit :=
  if msg.funderAddress = p.authority then .ok ()
  else do
    require (s.activeClawbackProposal msg.accountAddress = false)
      (.clawbackDisabled msg.accountAddress)
    require (p.blockedAddr dest = false) (.blockedDest msg.destAddress)

/-- Who receives the coins: the community pool, if governance claws them back. -/
def clawbackDest (p : Params D) (s : State D) (va : ClawbackVestingAccount D) (msg : MsgClawback)
    (dest : Address) : Except Error Address :=
  if p.authority = msg.funderAddress then do
    require (s.govClawbackDisabled msg.accountAddress = false)
      (.notSubjectToGovClawback msg.accountAddress)
    return p.distribution
  else do
    require (va.funderAddress = msg.funderAddress) (.notOriginalFunder va.funderAddress)
    return dest

/-- The transfer from an account that has just been converted. -/
def sendClawback (p : Params D) (s : State D) (a dest : Address) (coins : Coins D) :
    Except Error (State D) :=
  if dest = p.distribution then fundCommunityPool p s coins a else sendCoins s a dest coins

/-- `transferClawback`. -/
def transferClawback (p : Params D) (s : State D) (a : Address) (va : ClawbackVestingAccount D)
    (dest : Address) : Except Error (State D × Coins D) := do
  let (_, toClawBack) ← orRevert (va.computeClawback s.now) .panicked
  let s ← sendClawback p (convertToEth s a) a dest toClawBack
  return (s, toClawBack)

/-- The checks of `Clawback`, which give the account and the destination. -/
def checkClawback (p : Params D) (s : State D) (msg : MsgClawback) :
    Except Error (ClawbackVestingAccount D × Address) := do
  let dest := msg.destAddress.getD msg.funderAddress
  checkFunderClawback p s msg dest
  let va ← getClawbackVestingAccount s msg.accountAddress
  require (¬ (va.vestingPeriods.isEmpty ∧ va.lockupPeriods.isEmpty))
    (.noPeriods msg.accountAddress)
  let dest ← clawbackDest p s va msg dest
  return (va, dest)

/-- `Clawback`. -/
def clawback (p : Params D) (s : State D) (msg : MsgClawback) :
    Except Error (State D × Coins D) := do
  let (va, dest) ← checkClawback p s msg
  transferClawback p s msg.accountAddress va dest

section

variable {p : Params D} {s s' : State D} {msg : MsgClawback} {va : ClawbackVestingAccount D}
  {dest : Address} {coins : Coins D}

omit [Fintype D] in
theorem checkClawback_ok (h : checkClawback p s msg = .ok (va, dest)) :
    s.accounts msg.accountAddress = some (.clawback va) ∧
      (msg.funderAddress ≠ p.authority → va.funderAddress = msg.funderAddress) := by
  rw [checkClawback] at h
  obtain ⟨_, -, h⟩ := bind_ok.mp h
  obtain ⟨va', hva, h⟩ := bind_ok.mp h
  have h := of_require h
  obtain ⟨_, hdest, h⟩ := bind_ok.mp h
  cases h
  refine ⟨getClawbackVestingAccount_eq_ok.mp hva, ?_⟩
  intro hauth
  rw [clawbackDest, if_neg hauth.symm, require_bind_ok] at hdest
  exact hdest.1

theorem clawback_ok (h : clawback p s msg = .ok (s', coins)) :
    ∃ va dest, checkClawback p s msg = .ok (va, dest) ∧
      sendClawback p (convertToEth s msg.accountAddress) msg.accountAddress dest coins =
        .ok s' := by
  obtain ⟨⟨va, dest⟩, hcheck, h⟩ := bind_ok.mp h
  obtain ⟨⟨_, _⟩, -, h⟩ := orRevert_bind_ok.mp h
  obtain ⟨_, hsend, h⟩ := bind_ok.mp h
  cases h
  exact ⟨va, dest, hcheck, hsend⟩

end

/-! ## The other messages -/

structure MsgUpdateVestingFunder where
  funderAddress : Address
  newFunderAddress : Address
  vestingAddress : Address

def MsgUpdateVestingFunder.validateBasic (msg : MsgUpdateVestingFunder) : Except Error Unit := do
  require (msg.newFunderAddress ≠ .zero) (.zeroAddress "new funder")
  require (msg.funderAddress ≠ msg.newFunderAddress) .sameFunder

/-- `UpdateVestingFunder`. -/
def updateVestingFunder (p : Params D) (s : State D) (msg : MsgUpdateVestingFunder) :
    Except Error (State D) := do
  require (s.activeClawbackProposal msg.vestingAddress = false) (.updateDisabled msg.vestingAddress)
  require (p.blockedAddr msg.newFunderAddress = false) (.blockedFunder msg.newFunderAddress)
  let va ← getClawbackVestingAccount s msg.vestingAddress
  require (va.funderAddress = msg.funderAddress) (.notCurrentFunder va.funderAddress)
  setVestingAccount s msg.vestingAddress { va with funderAddress := msg.newFunderAddress }

/-- `ConvertVestingAccount`. -/
def convertVestingAccount (s : State D) (a : Address) : Except Error (State D) := do
  let va ← getClawbackVestingAccount s a
  let vesting ← orRevert (va.getVestingCoins s.now) .panicked
  require (IsZero vesting) (.vestingCoinsLeft a)
  let locked ← orRevert (va.getLockedUpCoins s.now) .panicked
  require (IsZero locked) (.lockedCoinsLeft a)
  return convertToEth s a

end HyperPax.Vesting
