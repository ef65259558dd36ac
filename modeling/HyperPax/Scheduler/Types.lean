/-
  Scheduler/Types.lean --- records, parameters, errors and store keys of x/scheduler.

  Source: x/scheduler/types/{types,params,errors,keys}.go.
-/
import HyperPax.Base.Bank
import HyperPax.Lib.Decimal
import HyperPax.Lib.OwnerIndex

set_option autoImplicit false

namespace HyperPax.Scheduler

open Lib

/-! ## Records -/

/-- `types.Job`: a scheduled EVM call.  Addresses are byte slices and the deposit
is a decimal string, as in the stored record. -/
structure Job where
  id : UInt64
  creator : List UInt8
  target : List UInt8
  callData : List UInt8
  executeAtBlock : UInt64
  gasLimit : UInt64
  deposit : String
  active : Bool
deriving DecidableEq

/-- `types.Params`. -/
structure Params where
  gasScheduleBase : UInt64
  gasSchedulePerByte : UInt64
  gasCancel : UInt64
  gasReschedule : UInt64
  gasView : UInt64
  maxJobsPerCreator : UInt32
  maxScheduleHorizon : UInt64
  minDepositFactor : UInt64
deriving DecidableEq

/-- `types.DefaultParams`. -/
def defaultParams : Params where
  gasScheduleBase := 5000
  gasSchedulePerByte := 50
  gasCancel := 3000
  gasReschedule := 4000
  gasView := 200
  maxJobsPerCreator := 1024
  maxScheduleHorizon := 2592000
  minDepositFactor := 2

/-- `Params.Validate`: the text of the first check that fails. -/
def Params.validate (p : Params) : Except String Unit :=
  if p.gasScheduleBase = 0 then .error "gas_schedule_base must be > 0"
  else if p.gasCancel = 0 then .error "gas_cancel must be > 0"
  else if p.gasReschedule = 0 then .error "gas_reschedule must be > 0"
  else if p.maxJobsPerCreator = 0 then .error "max_jobs_per_creator must be > 0"
  else if p.maxScheduleHorizon = 0 then .error "max_schedule_horizon must be > 0"
  else if p.minDepositFactor = 0 then .error "min_deposit_factor must be >= 1"
  else .ok ()

example : defaultParams.validate = .ok () := rfl

/-! ## Errors -/

/-- The errors the keeper returns: a registered sentinel with the values its
wrapping text shows, or an error of the bank. -/
inductive Err where
  | invalidTarget
  | invalidGasLimit
  | negativeDeposit
  | pastBlock (field : String) (block height : UInt64)
  | horizonExceeded (field : String) (block height max : UInt64)
  | maxJobsExceeded (creator : Address) (max : UInt32)
  | depositTooLow (required got : Int)
  | jobNotFound (id : UInt64)
  | jobInactive (id : UInt64)
  | unauthorized (caller : Address) (id : UInt64)
  | refundFailed (id : UInt64) (cause : BankError)
  | bank (cause : BankError)
deriving DecidableEq

/-! ## Store keys -/

/-- `0x01 | be8(executeAtBlock)`: the jobs due at one block. -/
def jobByDueBlockPrefix (executeAtBlock : UInt64) : Key :=
  0x01 :: putUint64 executeAtBlock

/-- `0x01 | be8(executeAtBlock) | be8(jobID)`. -/
def jobByDueBlockKey (executeAtBlock jobID : UInt64) : Key :=
  0x01 :: (putUint64 executeAtBlock ++ putUint64 jobID)

/-- `0x02 | creator`. -/
def creatorJobsPrefix (creator : List UInt8) : Key :=
  0x02 :: creator

/-- `0x02 | creator | be8(jobID)`. -/
def creatorJobKey (creator : List UInt8) (jobID : UInt64) : Key :=
  0x02 :: (creator ++ putUint64 jobID)

/-- `0x03`. -/
def jobByIDKeyPrefix : Key := [0x03]

/-- `0x03 | be8(jobID)`. -/
def jobByIDKey (jobID : UInt64) : Key :=
  0x03 :: putUint64 jobID

/-- `0x04`. -/
def paramsKey : Key := [0x04]

/-- `0x05`. -/
def nextJobIDKey : Key := [0x05]

variable {h id h' id' : UInt64}

@[simp] theorem jobByDueBlockKey_inj :
    jobByDueBlockKey h id = jobByDueBlockKey h' id' ↔ h = h' ∧ id = id' :=
  ownerKey_inj.trans (and_congr_left' putUint64_inj)

@[simp] theorem jobByIDKey_inj : jobByIDKey id = jobByIDKey id' ↔ id = id' := by simp [jobByIDKey]

theorem jobByDueBlockPrefix_prefix_iff :
    jobByDueBlockPrefix h <+: jobByDueBlockKey h' id ↔ h = h' :=
  (ownerPrefix_isPrefix_iff (by simp)).trans (putUint64_inj.trans eq_comm)

/-! The families do not overlap: their first bytes differ. -/

variable (h id : UInt64) (c : List UInt8)

@[simp] theorem dueKey_ne : (∀ id', jobByDueBlockKey h id ≠ jobByIDKey id') ∧
    (∀ c id', jobByDueBlockKey h id ≠ creatorJobKey c id') ∧
    jobByDueBlockKey h id ≠ paramsKey ∧ jobByDueBlockKey h id ≠ nextJobIDKey := by
  simp [jobByDueBlockKey, jobByIDKey, creatorJobKey, paramsKey, nextJobIDKey]

@[simp] theorem idKey_ne : (∀ h id', jobByIDKey id ≠ jobByDueBlockKey h id') ∧
    (∀ c id', jobByIDKey id ≠ creatorJobKey c id') ∧ jobByIDKey id ≠ paramsKey ∧
    jobByIDKey id ≠ nextJobIDKey := by
  simp [jobByIDKey, jobByDueBlockKey, creatorJobKey, paramsKey, nextJobIDKey]

@[simp] theorem creatorKey_ne : (∀ h id', creatorJobKey c id ≠ jobByDueBlockKey h id') ∧
    (∀ id', creatorJobKey c id ≠ jobByIDKey id') ∧ creatorJobKey c id ≠ paramsKey ∧
    creatorJobKey c id ≠ nextJobIDKey := by
  simp [creatorJobKey, jobByDueBlockKey, jobByIDKey, paramsKey, nextJobIDKey]

@[simp] theorem paramsKey_ne_idKey : paramsKey ≠ jobByIDKey id := by simp [paramsKey, jobByIDKey]

@[simp] theorem nextJobIDKey_ne : (∀ h id, nextJobIDKey ≠ jobByDueBlockKey h id) ∧
    ∀ id, nextJobIDKey ≠ jobByIDKey id := by
  simp [nextJobIDKey, jobByDueBlockKey, jobByIDKey]

end HyperPax.Scheduler
