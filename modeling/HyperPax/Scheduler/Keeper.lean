/-
  Scheduler/Keeper.lean --- schedule, cancel, reschedule and the deposit escrow.

  Source: x/scheduler/keeper/{schedule,escrow}.go.

  The keeper's methods run in the caller's context and return an error without
  undoing what they wrote (`Lib.Action`).  Each method comes with one case lemma
  that says everything it can do; later modules use those and never unfold the
  methods.
-/
import HyperPax.Scheduler.Jobs

set_option autoImplicit false

namespace HyperPax.Scheduler

open Lib Action

/-- What the scheduler reads and writes: its own store and the bank. -/
structure State where
  store : Store
  bank : Ledger

/-- The dependencies of the keeper: here only the address of the module account. -/
structure Keeper where
  moduleAccount : Address

/-- What the rest of the chain answers during one call: the fee market's base fee
(nil before the first block that sets it) and the bank's own refusals. -/
structure Env where
  baseFee : Option Nat
  refuses : Refusal

/-- `baseFee`, with nil read as zero. -/
def Env.fee (env : Env) : Nat := env.baseFee.getD 0

namespace State

/-- The state after a covered bank transfer. -/
def pay (s : State) (src dst : Address) (n : Nat) : State :=
  { s with bank := s.bank.transfer src dst n }

/-- The state with another store. -/
def withStore (s : State) (f : Store → Store) : State :=
  { s with store := f s.store }

variable (s : State) (f : Store → Store) (src dst : Address) (n : Nat)

@[simp] theorem pay_store : (s.pay src dst n).store = s.store := rfl

@[simp] theorem pay_bank : (s.pay src dst n).bank = s.bank.transfer src dst n := rfl

@[simp] theorem withStore_store : (s.withStore f).store = f s.store := rfl

@[simp] theorem withStore_bank : (s.withStore f).bank = s.bank := rfl

theorem pay_zero : s.pay src dst 0 = s := by simp [pay, Ledger.transfer_zero]

end State

/-! ## Writes -/

/-- One write of the store. -/
def write (f : Store → Store) : Action State Err Unit := .modify fun s => s.withStore f

/-- `SetJob`, write by write. -/
def putJob (j : Job) : Action State Err Unit := do
  write fun store => store.insert (jobByIDKey j.id) (.job j)
  write fun store => store.insert (jobByDueBlockKey j.executeAtBlock j.id) (.job j)
  write fun store => store.insert (creatorJobKey j.creator j.id) .marker

/-- `DeleteJob`, write by write. -/
def dropJob (j : Job) : Action State Err Unit := do
  write fun store => store.erase (jobByIDKey j.id)
  write fun store => store.erase (jobByDueBlockKey j.executeAtBlock j.id)
  write fun store => store.erase (creatorJobKey j.creator j.id)

theorem run_write_bind {α : Type} (f : Store → Store) (x : Unit → Action State Err α) (s : State) :
    (write f >>= x).run s = (x ()).run (s.withStore f) := by rw [write, run_modify_bind]

theorem run_putJob (j : Job) (s : State) :
    (putJob j).run s = (s.withStore fun store => setJob store j, .ok ()) := rfl

theorem run_dropJob (j : Job) (s : State) :
    (dropJob j).run s = (s.withStore fun store => deleteJob store j, .ok ()) := rfl

/-! ## Escrow -/

/-- A bank send within the scheduler's state. -/
def send {ε : Type} (env : Env) (wrap : BankError → ε) (src dst : Address) (n : Nat) :
    Action State ε Unit :=
  Action.zoom State.bank (fun s l => { s with bank := l }) wrap (sendCoins env.refuses src dst n)

variable (k : Keeper) (env : Env) (payer caller : Address) (jobID : UInt64) (s : State) {ε : Type}

theorem send_cases (wrap : BankError → ε) (src dst : Address) (n : Nat) (s : State) :
    (¬ (env.refuses src dst n = false ∧ n ≤ s.bank src) ∧
        ∃ e, (send env wrap src dst n).run s = (s, .error (wrap e))) ∨
      (env.refuses src dst n = false ∧ n ≤ s.bank src ∧
        (send env wrap src dst n).run s = (s.pay src dst n, .ok ())) := by
  rcases sendCoins_cases env.refuses src dst n s.bank with ⟨hbad, e, he⟩ | ⟨hrefuses, hle, hok⟩
  · exact .inl ⟨hbad, e, run_zoom_of_error _ _ _ he⟩
  · exact .inr ⟨hrefuses, hle, run_zoom_of_ok _ _ _ hok⟩

/-- `EscrowDeposit`. -/
def escrowDeposit (k : Keeper) (env : Env) (payer : Address) (deposit : Int) :
    Action State Err Unit :=
  if deposit = 0 then pure ()
  else if deposit < 0 then .fail .negativeDeposit
  else send env .bank payer k.moduleAccount deposit.toNat

/-- `RefundDeposit`: nothing to do for zero or less. -/
def refundDeposit (k : Keeper) {ε : Type} (env : Env) (wrap : BankError → ε) (recipient : Address)
    (amount : Int) : Action State ε Unit :=
  if amount ≤ 0 then pure () else send env wrap k.moduleAccount recipient amount.toNat

theorem escrowDeposit_cases (deposit : Int) (s : State) :
    (∃ e, (escrowDeposit k env payer deposit).run s = (s, .error e)) ∨
      (0 ≤ deposit ∧ deposit.toNat ≤ s.bank payer ∧ (escrowDeposit k env payer deposit).run s =
          (s.pay payer k.moduleAccount deposit.toNat, .ok ())) := by
  unfold escrowDeposit
  split
  · rename_i hzero
    subst hzero
    refine .inr ⟨le_refl 0, Nat.zero_le _, ?_⟩
    rw [Int.toNat_zero, State.pay_zero]
    rfl
  · split
    · exact .inl ⟨_, rfl⟩
    rcases send_cases env Err.bank payer k.moduleAccount deposit.toNat s with
      ⟨-, _, he⟩ | ⟨-, hle, hok⟩
    · exact .inl ⟨_, he⟩
    · exact .inr ⟨by omega, hle, hok⟩

theorem escrowDeposit_of_pos {deposit : Int} (h : 0 < deposit) :
    escrowDeposit k env payer deposit = send env .bank payer k.moduleAccount deposit.toNat := by
  unfold escrowDeposit
  rw [if_neg (by omega), if_neg (by omega)]

theorem refundDeposit_cases (wrap : BankError → ε) (recipient : Address) (amount : Int)
    (s : State) : (∃ e, (refundDeposit k env wrap recipient amount).run s = (s, .error e)) ∨
      (amount.toNat ≤ s.bank k.moduleAccount ∧ (refundDeposit k env wrap recipient amount).run s =
          (s.pay k.moduleAccount recipient amount.toNat, .ok ())) := by
  unfold refundDeposit
  split
  · rename_i hle
    refine .inr ?_
    rw [Int.toNat_of_nonpos hle, State.pay_zero]
    exact ⟨Nat.zero_le _, rfl⟩
  rcases send_cases env wrap k.moduleAccount recipient amount.toNat s with
    ⟨-, _, he⟩ | ⟨-, hok⟩
  · exact .inl ⟨_, he⟩
  · exact .inr hok

/-! ## Schedule -/

/-- The record `Schedule` writes. -/
def newJob (store : Store) (creator target : Address) (callData : List UInt8)
    (executeAtBlock gasLimit : UInt64) (deposit : Int) : Job where
  id := nextJobID store
  creator := creator.bytes
  target := target.bytes
  callData := callData
  executeAtBlock := executeAtBlock
  gasLimit := gasLimit
  deposit := formatInt deposit
  active := true

/-- `gasLimit * baseFee * MinDepositFactor`. -/
def minDeposit (env : Env) (params : Params) (gasLimit : UInt64) : Int :=
  (gasLimit.toNat * env.fee * params.minDepositFactor.toNat : Nat)

/-- `Schedule`. -/
def schedule (env : Env) (height : UInt64) (creator target : Address) (callData : List UInt8)
    (executeAtBlock gasLimit : UInt64) (deposit : Int) : Action State Err UInt64 := do
  .rejectIf (target = .zero) .invalidTarget
  .rejectIf (gasLimit = 0) .invalidGasLimit
  .rejectIf (deposit < 0) .negativeDeposit
  .rejectIf (executeAtBlock ≤ height) (.pastBlock "executeAtBlock" executeAtBlock height)
  let params ← .gets fun s => getParams s.store
  .rejectIf (executeAtBlock - height > params.maxScheduleHorizon)
    (.horizonExceeded "executeAtBlock" executeAtBlock height params.maxScheduleHorizon)
  let count ← .gets fun s => countJobsByCreator s.store creator.bytes
  .rejectIf (count ≥ params.maxJobsPerCreator)
    (.maxJobsExceeded creator params.maxJobsPerCreator)
  .rejectIf (deposit < minDeposit env params gasLimit)
    (.depositTooLow (minDeposit env params gasLimit) deposit)
  let job ← .gets fun s =>
    newJob s.store creator target callData executeAtBlock gasLimit deposit
  write bumpNextJobID
  putJob job
  return job.id

/-- What `Schedule` checks before it writes anything. -/
structure ScheduleAllowed (env : Env) (height : UInt64) (store : Store) (creator target : Address)
    (executeAtBlock gasLimit : UInt64) (deposit : Int) : Prop where
  target_ne : target ≠ .zero
  gasLimit_ne : gasLimit ≠ 0
  deposit_nonneg : 0 ≤ deposit
  future : height < executeAtBlock
  horizon : executeAtBlock - height ≤ (getParams store).maxScheduleHorizon
  count : countJobsByCreator store creator.bytes < (getParams store).maxJobsPerCreator
  minimum : minDeposit env (getParams store) gasLimit ≤ deposit

instance (env : Env) (height : UInt64) (store : Store) (creator target : Address)
    (executeAtBlock gasLimit : UInt64) (deposit : Int) :
    Decidable (ScheduleAllowed env height store creator target executeAtBlock gasLimit deposit) :=
  decidable_of_iff (target ≠ .zero ∧ gasLimit ≠ 0 ∧ 0 ≤ deposit ∧ height < executeAtBlock ∧
      executeAtBlock - height ≤ (getParams store).maxScheduleHorizon ∧
      countJobsByCreator store creator.bytes < (getParams store).maxJobsPerCreator ∧
      minDeposit env (getParams store) gasLimit ≤ deposit)
    ⟨fun ⟨h₁, h₂, h₃, h₄, h₅, h₆, h₇⟩ => ⟨h₁, h₂, h₃, h₄, h₅, h₆, h₇⟩,
      fun ⟨h₁, h₂, h₃, h₄, h₅, h₆, h₇⟩ => ⟨h₁, h₂, h₃, h₄, h₅, h₆, h₇⟩⟩

theorem schedule_cases (height : UInt64) (creator target : Address) (callData : List UInt8)
    (executeAtBlock gasLimit : UInt64) (deposit : Int) (s : State) :
    let allowed := ScheduleAllowed env height s.store creator target executeAtBlock gasLimit deposit
    let x := schedule env height creator target callData executeAtBlock gasLimit deposit
    (¬ allowed ∧ ∃ e, x.run s = (s, .error e)) ∨
      (allowed ∧ x.run s = (s.withStore fun store => setJob (bumpNextJobID store)
            (newJob store creator target callData executeAtBlock gasLimit deposit),
          .ok (nextJobID s.store))) := by
  intro _ x
  simp only [x, schedule, run_rejectIf_bind, run_gets_bind]
  split
  · rename_i hbad
    exact .inl ⟨fun h => h.target_ne hbad, _, rfl⟩
  rename_i htarget
  split
  · rename_i hbad
    exact .inl ⟨fun h => h.gasLimit_ne hbad, _, rfl⟩
  rename_i hgas
  split
  · rename_i hbad
    exact .inl ⟨fun h => absurd h.deposit_nonneg (not_le.mpr hbad), _, rfl⟩
  rename_i hdeposit
  split
  · rename_i hbad
    exact .inl ⟨fun h => absurd h.future (UInt64.not_lt.mpr hbad), _, rfl⟩
  rename_i hpast
  split
  · rename_i hbad
    exact .inl ⟨fun h => absurd h.horizon (UInt64.not_le.mpr hbad), _, rfl⟩
  rename_i hhorizon
  split
  · rename_i hbad
    exact .inl ⟨fun h => absurd h.count (UInt32.not_lt.mpr hbad), _, rfl⟩
  rename_i hcount
  split
  · rename_i hbad
    exact .inl ⟨fun h => absurd h.minimum (not_le.mpr hbad), _, rfl⟩
  rename_i hminimum
  refine .inr ⟨⟨htarget, hgas, not_lt.mp hdeposit, UInt64.not_le.mp hpast,
    UInt64.not_lt.mp hhorizon, UInt32.not_le.mp hcount, not_lt.mp hminimum⟩, ?_⟩
  rw [run_write_bind, run_bind_of_ok (run_putJob _ _)]
  rfl

/-! ## Cancel and Reschedule -/

/-- The checks `Cancel` and `Reschedule` share: the job is stored, active, and the
caller created it. -/
def ownedJob (caller : Address) (jobID : UInt64) : Action State Err Job := do
  let found ← .gets fun s => getJob s.store jobID
  let job ← .orFail found (.jobNotFound jobID)
  .rejectIf (job.active = false) (.jobInactive jobID)
  .rejectIf (equalAddress job.creator caller.bytes = false) (.unauthorized caller jobID)
  return job

theorem ownedJob_cases : (∃ e, (ownedJob caller jobID).run s = (s, .error e)) ∨
      ∃ j, getJob s.store jobID = some j ∧ j.active ∧ j.creator = caller.bytes ∧
        (ownedJob caller jobID).run s = (s, .ok j) := by
  simp only [ownedJob, run_gets_bind, run_orFail_bind, run_rejectIf_bind, run_pure]
  cases hj : getJob s.store jobID with
  | none => exact .inl ⟨_, rfl⟩
  | some j =>
    simp only
    split
    · exact .inl ⟨_, rfl⟩
    rename_i hactive
    split
    · exact .inl ⟨_, rfl⟩
    rename_i hcreator
    refine .inr ⟨j, rfl, by simpa using hactive, ?_, rfl⟩
    exact (equalAddress_iff _ _).mp (by simpa using hcreator)

/-- `Cancel`: the refund comes before the deletion, so a failed refund leaves the
job in place. -/
def cancel (k : Keeper) (env : Env) (caller : Address) (jobID : UInt64) :
    Action State Err Unit := do
  let job ← ownedJob caller jobID
  refundDeposit k env (.refundFailed jobID) caller (parseDeposit job.deposit)
  dropJob job

theorem cancel_cases : (∃ e, (cancel k env caller jobID).run s = (s, .error e)) ∨
      ∃ j, getJob s.store jobID = some j ∧ j.active ∧ j.creator = caller.bytes ∧
        j.depositCoins ≤ s.bank k.moduleAccount ∧ (cancel k env caller jobID).run s =
          ((s.pay k.moduleAccount caller j.depositCoins).withStore fun store => deleteJob store j,
            .ok ()) := by
  unfold cancel
  rcases ownedJob_cases caller jobID s with ⟨e, he⟩ | ⟨j, hj, hactive, hcreator, hok⟩
  · exact .inl ⟨e, run_bind_of_error he⟩
  rw [run_bind_of_ok hok]
  rcases refundDeposit_cases k env (Err.refundFailed jobID) caller (parseDeposit j.deposit) s with
    ⟨e, he⟩ | ⟨hle, hrefund⟩
  · exact .inl ⟨e, run_bind_of_error he⟩
  refine .inr ⟨j, hj, hactive, hcreator, hle, ?_⟩
  rw [run_bind_of_ok hrefund, run_dropJob]
  rfl

/-- `Reschedule`: the old entries go, the record comes back under the new block. -/
def reschedule (height : UInt64) (caller : Address) (jobID newExecuteAtBlock : UInt64) :
    Action State Err Unit := do
  let job ← ownedJob caller jobID
  .rejectIf (newExecuteAtBlock ≤ height)
    (.pastBlock "newExecuteAtBlock" newExecuteAtBlock height)
  let params ← .gets fun s => getParams s.store
  .rejectIf (newExecuteAtBlock - height > params.maxScheduleHorizon)
    (.horizonExceeded "newExecuteAtBlock" newExecuteAtBlock height params.maxScheduleHorizon)
  dropJob job
  putJob { job with executeAtBlock := newExecuteAtBlock }

theorem reschedule_cases (height : UInt64) (caller : Address) (jobID newExecuteAtBlock : UInt64)
    (s : State) : (∃ e, (reschedule height caller jobID newExecuteAtBlock).run s = (s, .error e)) ∨
      ∃ j, getJob s.store jobID = some j ∧ j.active ∧ j.creator = caller.bytes ∧
        height < newExecuteAtBlock ∧ (reschedule height caller jobID newExecuteAtBlock).run s =
          (s.withStore fun store => setJob (deleteJob store j)
              { j with executeAtBlock := newExecuteAtBlock }, .ok ()) := by
  unfold reschedule
  rcases ownedJob_cases caller jobID s with ⟨e, he⟩ | ⟨j, hj, hactive, hcreator, hok⟩
  · exact .inl ⟨e, run_bind_of_error he⟩
  rw [run_bind_of_ok hok]
  simp only [run_rejectIf_bind, run_gets_bind]
  split
  · exact .inl ⟨_, rfl⟩
  rename_i hpast
  split
  · exact .inl ⟨_, rfl⟩
  refine .inr ⟨j, hj, hactive, hcreator, UInt64.not_le.mp hpast, ?_⟩
  rw [run_bind_of_ok (run_dropJob _ _), run_putJob]
  rfl

end HyperPax.Scheduler
