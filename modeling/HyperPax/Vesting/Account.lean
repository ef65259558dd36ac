/-
  Vesting/Account.lean --- clawback vesting accounts.

  Source: x/vesting/types/clawback_vesting_account.go.

  A clawback vesting account holds coins that vest by one schedule and are unlocked by
  another; what is not vested belongs to the funder, who can claw it back.  `Sub` of two
  coins panics when an amount would be negative, and a function that uses it has an
  optional result.
-/
import HyperPax.Base.Address
import HyperPax.Vesting.Schedule

set_option autoImplicit false

namespace HyperPax.Vesting

open Lib

variable {D R : Type} [Fintype D]

/-- `Coins.Sub`. -/
def sub? [Sub R] [LE R] [DecidableLE R] (a b : Coins D R) : Option (Coins D R) :=
  if ∀ d, b d ≤ a d then some (a - b) else none

theorem sub?_of_le [Sub R] [LE R] [DecidableLE R] {a b : Coins D R} (h : b ≤ a) :
    sub? a b = some (a - b) := if_pos h

/-- `Coins.IsZero`. -/
def IsZero (coins : Coins D) : Prop := ∀ d, coins d = 0

instance (coins : Coins D) : Decidable (IsZero coins) :=
  inferInstanceAs (Decidable (∀ d, coins d = 0))

/-- `ClawbackVestingAccount`. -/
structure ClawbackVestingAccount (D : Type) (R : Type := Nat) where
  funderAddress : Address
  originalVesting : Coins D R
  delegatedFree : Coins D R
  delegatedVesting : Coins D R
  startTime : Time
  endTime : Time
  lockupPeriods : List (Period D R)
  vestingPeriods : List (Period D R)

namespace ClawbackVestingAccount

section

variable [Add R] [Zero R] [Sub R] [Min R] [LE R] [DecidableLE R] [DecidableEq R]
  (va : ClawbackVestingAccount D R) (blockTime : Time)

/-- `GetUnlockedCoins`. -/
def getUnlockedCoins : Coins D R :=
  readSchedule va.startTime va.endTime va.lockupPeriods va.originalVesting blockTime

/-- `GetVestedCoins`. -/
def getVestedCoins : Coins D R :=
  readSchedule va.startTime va.endTime va.vestingPeriods va.originalVesting blockTime

/-- `GetLockedUpCoins`; `none` is the panic of `Sub`. -/
def getLockedUpCoins : Option (Coins D R) :=
  sub? va.originalVesting (va.getUnlockedCoins blockTime)

/-- `GetVestingCoins`. -/
def getVestingCoins : Option (Coins D R) :=
  sub? va.originalVesting (va.getVestedCoins blockTime)

/-- `GetUnlockedVestedCoins`. -/
def getUnlockedVestedCoins : Coins D R :=
  (va.getUnlockedCoins blockTime).min (va.getVestedCoins blockTime)

/-- `GetLockedUpVestedCoins`. -/
def getLockedUpVestedCoins : Option (Coins D R) :=
  sub? (va.getVestedCoins blockTime) (va.getUnlockedVestedCoins blockTime)

/-- What the bank does not let the account spend. -/
def lockedCoins : Option (Coins D R) := do
  let lockedUpVested ← va.getLockedUpVestedCoins blockTime
  let free := va.getUnlockedVestedCoins blockTime + va.delegatedFree.min lockedUpVested
  return (sub? va.originalVesting free).getD 0

/-- The time at which a list of periods ends. -/
def scheduleEnd (periods : List (Period D R)) : Time :=
  periods.foldl (fun time p => time.add p.length) va.startTime

/-- `Validate`, up to the check of the public key in the base account. -/
def validate : Except String Unit :=
  if va.startTime.val ≥ va.endTime.val then .error "vesting start-time must be before end-time"
  else if (va.scheduleEnd va.lockupPeriods).val > va.endTime.val then
    .error "lockup schedule extends beyond account end time"
  else if totalAmount va.lockupPeriods ≠ va.originalVesting then
    .error "original vesting coins does not match the sum of all coins in lockup periods"
  else if (va.scheduleEnd va.vestingPeriods).val > va.endTime.val then
    .error "vesting schedule extends beyond account end time"
  else if totalAmount va.vestingPeriods ≠ va.originalVesting then
    .error "original vesting coins does not match the sum of all coins in vesting periods"
  else if ¬ ∀ d, va.delegatedVesting d ≤ va.originalVesting d then
    .error "delegated vesting amount cannot be greater than the original vesting amount"
  else .ok ()

/-- `GetPassedPeriodCount`. -/
def getPassedPeriodCount : Nat :=
  readPastPeriodCount va.startTime va.endTime va.vestingPeriods blockTime

/-- The account with all future vesting events removed, and the coins of these events. -/
def computeClawback (clawbackTime : Time) : Option (ClawbackVestingAccount D R × Coins D R) := do
  let totalVested := va.getVestedCoins clawbackTime
  let totalUnvested ← va.getVestingCoins clawbackTime
  let newVestingPeriods := va.vestingPeriods.take (va.getPassedPeriodCount clawbackTime)
  let newVestingEnd := va.startTime.add (totalLength newVestingPeriods)
  let capPeriods : List (Period D R) := [⟨.zero, totalVested⟩]
  let newLockup := conjunctPeriods va.startTime va.startTime va.lockupPeriods capPeriods
  return ({ va with
    originalVesting := totalVested
    endTime := max64 newVestingEnd newLockup.endTime
    lockupPeriods := newLockup.periods
    vestingPeriods := newVestingPeriods }, totalUnvested)

theorem computeClawback_of_vesting {coins : Coins D R}
    (h : va.getVestingCoins blockTime = some coins) :
    ∃ va', va.computeClawback blockTime = some (va', coins) := by
  rw [computeClawback, h]
  exact ⟨_, rfl⟩

variable {va}

omit [Sub R] [Min R] in
theorem totals_of_validate (h : va.validate = .ok ()) :
    totalAmount va.lockupPeriods = va.originalVesting ∧
      totalAmount va.vestingPeriods = va.originalVesting := by
  unfold validate at h
  split_ifs at h with hstart hlockupEnd hlockup hvestingEnd hvesting hdelegated
  exact ⟨not_not.mp hlockup, not_not.mp hvesting⟩

end

/-- Nothing is left to vest or to unlock (`HasLockedCoins` is false). -/
def Matured (va : ClawbackVestingAccount D) (blockTime : Time) : Prop :=
  (∃ coins ∈ va.getVestingCoins blockTime, IsZero coins) ∧
    ∃ coins ∈ va.getLockedUpCoins blockTime, IsZero coins

theorem getVestingCoins_of_le (va : ClawbackVestingAccount D) (blockTime : Time)
    (h : totalAmount va.vestingPeriods ≤ va.originalVesting) :
    va.getVestingCoins blockTime = some (va.originalVesting - va.getVestedCoins blockTime) :=
  sub?_of_le (readSchedule_le (fun _ _ => zero_le) h va.startTime va.endTime blockTime)

end ClawbackVestingAccount

end HyperPax.Vesting
