/-
  Scheduler/GasLimit.lean --- the gas of a dispatched call.

  Source: x/scheduler/keeper/abci.go (dispatchJob), x/erc20/keeper/evm.go (CallEVMWithData),
  x/evm/keeper/grpc_query.go (EstimateGasInternal), x/evm/types/utils.go (BinSearch).

  The gas limit of a job is checked against its deposit when it is scheduled.  The call is made
  through `CallEVMWithData`, which knows nothing of it: it looks for an allowance with which the
  call succeeds, up to the gas cap and the maximum of a block, and makes the call with that.
-/
import HyperPax.Evm.Estimate
import HyperPax.Scheduler.EndBlocker

set_option autoImplicit false

namespace HyperPax.Scheduler

open Option

/-! ## The call -/

/-- What applying the message with an allowance of gas comes to: it does not cover the intrinsic
gas, the message is rejected, or it was run. -/
inductive Execution where
  | intrinsicGas
  | rejected
  | ran (vmError : Bool) (gasUsed : UInt64)

/-- `executable`; an error other than that of the intrinsic gas is `none`. -/
def Execution.failed : Execution → Option Bool
  | .intrinsicGas => some true
  | .rejected => none
  | .ran vmError _ => some vmError

/-- `DefaultGasCap`. -/
def defaultGasCap : Nat := 25000000

/-- The highest gas limit of an estimation without one of its own: the maximum of a block, if it
has one, within the cap. -/
def highestAllowance (maxGas : Int) : Nat :=
  Evm.Request.highest ⟨none, maxGas, defaultGasCap, by decide, by decide⟩

theorem highestAllowance_le (maxGas : Int) : highestAllowance maxGas ≤ defaultGasCap :=
  min_le_right _ _

variable (apply : Nat → Execution) (maxGas : Int) {gas intrinsic : Nat}

theorem isSome_estimate :
    (Evm.estimateGasInternal (fun gas => (apply gas).failed) (highestAllowance maxGas)
      (highestAllowance maxGas + 1)).isSome :=
  Evm.isSome_estimateGasInternal ((highestAllowance_le maxGas).trans (by decide))

/-- `EstimateGasInternal`; `none` is an error. -/
def estimateGas : Option Nat :=
  (Evm.estimateGasInternal (fun gas => (apply gas).failed) (highestAllowance maxGas)
    (highestAllowance maxGas + 1)).get (isSome_estimate apply maxGas)

/-- `CallEVMWithData` with commit, for a creator that has an account: the gas used, if the call is
made. -/
def callEVMWithData : Option UInt64 := do
  let gas ← estimateGas apply maxGas
  match apply gas with
  | .ran false gasUsed => some gasUsed
  | _ => none

/-! ## What it can use -/

/-- The call cannot be run below its intrinsic gas, and uses no more than the allowance. -/
structure Lawful (intrinsic : Nat) : Prop where
  intrinsic : ∀ gas, gas < intrinsic → apply gas = .intrinsicGas
  gasUsed : ∀ gas vmError gasUsed, apply gas = .ran vmError gasUsed → gasUsed.toNat ≤ gas

variable {apply maxGas}

theorem estimateGas_eq_iff {answer : Option Nat} : estimateGas apply maxGas = answer ↔
    Evm.estimateGasInternal (fun gas => (apply gas).failed) (highestAllowance maxGas)
      (highestAllowance maxGas + 1) = some answer := by
  rw [estimateGas, ← Option.some_inj, some_get]

theorem estimateGas_le (h : estimateGas apply maxGas = some gas) :
    gas ≤ highestAllowance maxGas := by
  rw [estimateGas_eq_iff, Evm.estimateGasInternal] at h
  have hcap := (highestAllowance_le maxGas).trans (show defaultGasCap ≤ 2 ^ 63 by decide)
  split at h
  · rename_i found hfound
    have hle := Evm.binSearch_le hcap (by decide) hfound
    split at h
    · split at h
      · cases h
        exact hle
      · cases h
    · cases h
      exact hle
  · rename_i hother
    exact absurd h (hother gas)

theorem callEVMWithData_le (hlawful : Lawful apply intrinsic) {gasUsed : UInt64}
    (h : callEVMWithData apply maxGas = some gasUsed) :
    gasUsed.toNat ≤ highestAllowance maxGas ∧ intrinsic ≤ highestAllowance maxGas := by
  obtain ⟨gas, hgas, h⟩ := bind_eq_some_iff.mp h
  have hle := estimateGas_le hgas
  split at h
  · rename_i used happly
    obtain rfl := Option.some.inj h
    have hused := hlawful.gasUsed gas false used happly
    refine ⟨hused.trans hle, ?_⟩
    by_contra hlt
    rw [hlawful.intrinsic gas (by omega)] at happly
    cases happly
  · cases h

/-- A callee that succeeds only with the highest allowance, and uses all of it. -/
def spendsAll (intrinsic highest gas : Nat) : Execution :=
  if gas < intrinsic then .intrinsicGas else .ran (decide (gas < highest)) (.ofNat gas)

theorem spendsAll_lawful (intrinsic highest : Nat) :
    Lawful (spendsAll intrinsic highest) intrinsic where
  intrinsic gas h := if_pos h
  gasUsed gas vmError gasUsed h := by
    unfold spendsAll at h
    split at h
    · cases h
    cases h
    rw [UInt64.toNat_ofNat']
    exact Nat.mod_le _ _

theorem callEVMWithData_spendsAll (h : intrinsic ≤ highestAllowance maxGas) :
    callEVMWithData (spendsAll intrinsic (highestAllowance maxGas)) maxGas =
      some (.ofNat (highestAllowance maxGas)) := by
  have hlast : spendsAll intrinsic (highestAllowance maxGas) (highestAllowance maxGas) =
      .ran false (.ofNat (highestAllowance maxGas)) := by
    rw [spendsAll, if_neg (not_lt.mpr h), decide_eq_false (lt_irrefl _)]
  have hcap := (highestAllowance_le maxGas).trans (show defaultGasCap ≤ 2 ^ 63 by decide)
  have hfailed : ∀ gas < highestAllowance maxGas,
      (spendsAll intrinsic (highestAllowance maxGas) gas).failed = some true := by
    intro gas hlt
    unfold spendsAll
    split
    · rfl
    · rw [decide_eq_true hlt]
      rfl
  have hestimate : estimateGas (spendsAll intrinsic (highestAllowance maxGas)) maxGas =
      some (highestAllowance maxGas) := by
    rw [estimateGas_eq_iff, Evm.estimateGasInternal,
      Evm.binSearch_of_failed hcap (by decide) (by omega) hfailed]
    dsimp only
    rw [if_pos rfl, hlast]
    rfl
  rw [callEVMWithData, hestimate, bind_eq_bind, bind_some, hlast]

/-- What the creator of a job pays for a call. -/
def charge (env : Env) (gasUsed : UInt64) (j : Job) : Int :=
  parseDeposit j.deposit - unspentDeposit env gasUsed j

/-- Whatever the callee does, the call of a job stays within its gas limit, and the charge within
the limit at the base fee and within the deposit, exactly if the highest allowance is within the
limit or does not cover the intrinsic gas. -/
theorem gasLimit_respected_iff (maxGas : Int) (j : Job) (intrinsic : Nat) :
    (∀ apply, Lawful apply intrinsic → ∀ gasUsed, callEVMWithData apply maxGas = some gasUsed →
      gasUsed.toNat ≤ j.gasLimit.toNat ∧ ∀ env,
        charge env gasUsed j ≤ (j.gasLimit.toNat * env.fee : Nat) ∧
        charge env gasUsed j ≤ parseDeposit j.deposit) ↔
    highestAllowance maxGas < intrinsic ∨ highestAllowance maxGas ≤ j.gasLimit.toNat := by
  constructor
  · intro h
    by_contra hnot
    push Not at hnot
    have hused := (h _ (spendsAll_lawful intrinsic _) _ (callEVMWithData_spendsAll hnot.1)).1
    have hcap := highestAllowance_le maxGas
    rw [UInt64.toNat_ofNat', Nat.mod_eq_of_lt (hcap.trans_lt (by decide))] at hused
    omega
  intro hcover _ hlawful gasUsed hcall
  obtain ⟨hle, hintrinsic⟩ := callEVMWithData_le hlawful hcall
  have hused : gasUsed.toNat ≤ j.gasLimit.toNat :=
    hle.trans (hcover.resolve_left (not_lt.mpr hintrinsic))
  refine ⟨hused, fun env => ?_⟩
  have hfee : gasUsed.toNat * env.fee ≤ j.gasLimit.toNat * env.fee :=
    Nat.mul_le_mul_right _ hused
  have hdeposit := parseDeposit_nonneg j.deposit
  unfold charge unspentDeposit
  dsimp only
  split <;> omega

/-- A job with a limit of 21000 and twice the deposit that it needs at a base fee of one. -/
def smallJob : Job := ⟨1, [], [], [], 10, 21000, "42000", true⟩

/-- In a chain without a maximum, its call uses 25000000 gas, and the whole deposit is charged. -/
theorem gasLimit_ignored :
    callEVMWithData (spendsAll 21000 (highestAllowance (-1))) (-1) = some 25000000 ∧
      charge ⟨some 1, fun _ _ _ => false⟩ 25000000 smallJob = 42000 ∧
      smallJob.gasLimit.toNat * 1 < 42000 :=
  ⟨callEVMWithData_spendsAll (by decide), by decide +kernel, by decide⟩

end HyperPax.Scheduler
