/-
  Scheduler/Solvency.lean --- the module account covers the recorded deposits.

  The invariant counts deposits over the due-block index, because a dispatch
  works from a copy taken out of that index: as long as the copy's own entry is
  still there when the dispatch ends, the deferred `DeleteJob` removes the entry
  whose deposit has just been refunded.  A call that removes the entry of a job
  of the running snapshot (its own or a later one) and still commits breaks
  exactly this.
-/
import HyperPax.Scheduler.EndBlocker

set_option autoImplicit false

namespace HyperPax.Scheduler

open Lib State

/-- Coherent indexes, and a module balance that covers every due-block entry. -/
structure Backed (k : Keeper) (s : State) : Prop where
  indexed : Indexed s.store
  covered : dueDeposits s.store ≤ s.bank k.moduleAccount

/-- The property itself: the recorded deposits of all stored jobs are covered. -/
def Solvent (k : Keeper) (s : State) : Prop :=
  pendingDeposits s.store ≤ s.bank k.moduleAccount

variable {k : Keeper} {c : Config}

theorem Backed.solvent {s : State} (h : Backed k s) : Solvent k s :=
  (pendingDeposits_le_dueDeposits h.indexed).trans h.covered

/-! ## Operations -/

section

variable {k : Keeper} {s : State}

theorem depositCoins_newJob (store : Store) (creator target : Address) (callData : List UInt8)
    (executeAtBlock gasLimit : UInt64) {deposit : Int} (h : 0 ≤ deposit) :
    (newJob store creator target callData executeAtBlock gasLimit deposit).depositCoins =
      deposit.toNat := by
  simp [Job.depositCoins, newJob, h]

theorem Backed.execOp (hs : Backed k s) (env : Env) (height : UInt64) (op : Op)
    (hpayer : op.payer? ≠ some k.moduleAccount) : Backed k ((execOp k env height op).run s).1 := by
  cases op with
  | schedule caller target callData executeAtBlock gasLimit deposit =>
    have hcaller : caller ≠ k.moduleAccount := fun he => hpayer (by rw [Op.payer?, he])
    -- the escrow alone already covers the new record
    have hescrow : s.bank.transfer caller k.moduleAccount deposit.toNat k.moduleAccount =
        s.bank k.moduleAccount + deposit.toNat := Ledger.transfer_dst _ _ hcaller
    rcases execOp_schedule_cases k env height caller target callData executeAtBlock gasLimit
      deposit s with ⟨e, he⟩ | ⟨hnonneg, -, ⟨e, he⟩ | ⟨-, hok⟩⟩
    · rw [he]
      exact hs
    · rw [he]
      refine ⟨hs.indexed, ?_⟩
      rw [pay_store, pay_bank, hescrow]
      exact hs.covered.trans (Nat.le_add_right _ _)
    rw [hok]
    refine ⟨hs.indexed.bumpNextJobID.setJob _, ?_⟩
    rw [withStore_store, withStore_bank, pay_bank, pay_store, hescrow]
    refine (dueDeposits_setJob_le _ _).trans ?_
    rw [dueDeposits_bumpNextJobID, depositCoins_newJob _ _ _ _ _ _ hnonneg]
    exact Nat.add_le_add_right hs.covered _
  | cancel caller jobID =>
    rcases execOp_cancel_cases k env height caller jobID s with ⟨e, he⟩ | ⟨j, hj, -, -, hok⟩
    · rw [he]
      exact hs
    rw [hok]
    refine ⟨hs.indexed.deleteJob j, ?_⟩
    have hdelete := dueDeposits_deleteJob s.store (hs.indexed.due_of_getJob hj).2
    have hbank := s.bank.le_transfer_add k.moduleAccount caller k.moduleAccount j.depositCoins
    have hcov := hs.covered
    simp only [withStore_store, withStore_bank, pay_store, pay_bank]
    omega
  | reschedule caller jobID newBlock =>
    rcases execOp_reschedule_cases k env height caller jobID newBlock s with
      ⟨_, he⟩ | ⟨j, hj, -, -, hok⟩
    · rw [he]
      exact hs
    rw [hok]
    refine ⟨(hs.indexed.deleteJob j).setJob _, ?_⟩
    have hdelete := dueDeposits_deleteJob s.store (hs.indexed.due_of_getJob hj).2
    have hset := dueDeposits_setJob_le (deleteJob s.store j)
      { j with executeAtBlock := newBlock }
    have hsame : ({ j with executeAtBlock := newBlock } : Job).depositCoins = j.depositCoins :=
      rfl
    have hcov := hs.covered
    simp only [withStore_store, withStore_bank]
    omega

theorem Backed.perform {c : Context} (hs : Backed k c.state) (env : Env) (height : UInt64)
    (op : Op) (hpayer : op.payer? ≠ some k.moduleAccount) :
    Backed k (c.perform k env height op).state := by
  have hexec := hs.execOp env height op hpayer
  unfold Context.perform
  split <;> rename_i heq <;> rw [heq] at hexec <;> exact hexec

theorem Backed.refundAndDelete (hs : Backed k s) (env : Env) {j : Job} {refund : Int}
    (hentry : j ∈ jobsDueAt s.store j.executeAtBlock) (hle : refund.toNat ≤ j.depositCoins) :
    Backed k (refundAndDelete k env j refund s) := by
  have hcopy := (hs.indexed.mem_jobsDueAt.mp hentry).2
  have hdelete := dueDeposits_deleteJob s.store hcopy
  have hbank := refundAndDelete_bank k env j hle s
  have hcov := hs.covered
  refine ⟨?_, ?_⟩
  · rw [refundAndDelete_store]
    exact hs.indexed.deleteJob j
  · rw [refundAndDelete_store]
    omega

end

/-! ## Configurations -/

/-- What holds in a configuration: both contexts are backed, and the jobs still to
be finished are listed in the context that survives. -/
def BackedConfig (k : Keeper) (c : Config) : Prop :=
  Backed k c.now.state ∧
    match c.phase with
    | .idle => True
    | .dispatching rest => Queued c.height rest c.now.state.store
    | .inCall j rest outer => Backed k outer.state ∧ Queued c.height (j :: rest) outer.state.store

/-- The module account has no key and no code: it does not schedule. -/
def OutsidePayer (k : Keeper) : Config → Label → Prop
  | _, .op _ o => o.payer? ≠ some k.moduleAccount
  | _, _ => True

instance (k : Keeper) (c : Config) (l : Label) : Decidable (OutsidePayer k c l) :=
  match l with
  | .op .. => inferInstanceAs (Decidable (_ ≠ _))
  | .setParams _ | .endBlock | .callBegin | .callFail _ | .callOk _ _ | .finish | .advance _ =>
    .isTrue trivial

theorem backedConfig_start (k : Keeper) (height : UInt64) (bank : Ledger) :
    BackedConfig k (.start height bank) := by
  refine ⟨⟨.empty, ?_⟩, trivial⟩
  simp [Config.start]

theorem BackedConfig.step {c' : Config} {l : Label} (hc : BackedConfig k c)
    (hpayer : OutsidePayer k c l) (hkeeps : KeepsSnapshot c l) (h : step k c l = some c') :
    BackedConfig k c' := by
  cases transition_of_step h with
  | setParams hset =>
    refine ⟨⟨hc.1.indexed.setParams hset, ?_⟩, trivial⟩
    simp only
    rw [dueDeposits_setParams _ hset]
    exact hc.1.covered
  | op => exact ⟨hc.1.perform _ _ _ hpayer, trivial⟩
  | callOp => exact ⟨hc.1.perform _ _ _ hpayer, hc.2⟩
  | endBlock => exact ⟨hc.1, Queued.of_dueJobs hc.1.indexed _⟩
  | callBegin => exact ⟨hc.1, hc.1, hc.2⟩
  | callFail =>
    rename_i height c s H j rest env
    obtain ⟨-, hback, hq⟩ := hc
    have hentry := hq.listed j List.mem_cons_self
    have hblock := (hback.indexed.mem_jobsDueAt.mp hentry).1
    refine ⟨hback.refundAndDelete env (hblock ▸ hentry) (le_refl _), ?_⟩
    simp only [dispatchFailed, refundAndDelete_store]
    exact hq.deleteJob hback.indexed
  | callOk =>
    rename_i height s H outer j rest env gasUsed
    obtain ⟨hback, -, hq⟩ := hc
    -- the guard moves the queue from the outer context to the cache
    have hcache : Queued height (j :: rest) s.store := ⟨hq.nodup, hkeeps⟩
    have hentry := hcache.listed j List.mem_cons_self
    have hblock := (hback.indexed.mem_jobsDueAt.mp hentry).1
    refine ⟨hback.refundAndDelete env (hblock ▸ hentry) (unspentDeposit_le env gasUsed j), ?_⟩
    simp only [dispatchExecuted, refundAndDelete_store]
    exact hcache.deleteJob hback.indexed
  | finish | advance => exact ⟨hc.1, trivial⟩

theorem BackedConfig.solvent (hc : BackedConfig k c) :
    Solvent k c.now.state ∧ Solvent k c.committed.state := by
  refine ⟨hc.1.solvent, ?_⟩
  obtain ⟨_, _, phase⟩ := c
  cases phase with
  | idle | dispatching => exact hc.1.solvent
  | inCall => exact hc.2.1.solvent

/-! ## Runs -/

/-- In every run whose committed calls leave the block's snapshot in place, the
module account covers the deposits of all stored jobs, in the context being
worked on and in the committed one. -/
theorem solvent_of_path (k : Keeper) (height : UInt64) (bank : Ledger) (c : Config)
    (h : Path (step k) (fun c l => OutsidePayer k c l ∧ KeepsSnapshot c l) (.start height bank) c) :
    Solvent k c.now.state ∧ Solvent k c.committed.state := by
  have hinv : BackedConfig k c :=
    Path.invariant (fun t l u ht hok hl => BackedConfig.step ht hok.1 hok.2 hl)
      (backedConfig_start k height bank) h
  exact hinv.solvent

/-! ## A self-cancelling job -/

namespace SelfCancel

open Reentrant

/-- At height 4 the contract schedules a call to itself for block 5 and another
account schedules one for block 6, each with a deposit of 10; at height 5 the
contract is called and `inCall` says what it does there. -/
def labels (inCall : List Label) : List Label :=
  [.op freeEnv (.schedule contract contract [] 5 1 10),
    .op freeEnv (.schedule other contract [] 6 1 10),
    .advance 5, .endBlock, .callBegin] ++ inCall ++ [.callOk freeEnv 0]

/-- What is left at the end of a run: the deposits still recorded and the module
balance, in the committed context. -/
def ledgerOf (c : Config) : Nat × Nat :=
  (pendingDeposits c.committed.state.store, c.committed.state.bank keeper.moduleAccount)

end SelfCancel

open Reentrant SelfCancel in
/-- Cancelling its own job while it is being dispatched refunds the contract
twice: once by `Cancel`, once by `dispatchJob`.  The second refund is paid with the
deposit of the other account's job. -/
theorem selfCancel_insolvent : bank keeper.moduleAccount = 0 ∧
      ∃ c, Path (step keeper) (OutsidePayer keeper) (.start 4 bank) c ∧
        ¬ Solvent keeper c.committed.state := by
  refine ⟨by decide, ?_⟩
  have hrun : (runLabels (guardedStep (step keeper) (OutsidePayer keeper)) (.start 4 bank)
      (labels [.op freeEnv (.cancel contract 1)])).map ledgerOf = some (10, 0) := by
    decide +kernel
  obtain ⟨c, hc, hledger⟩ := Option.map_eq_some_iff.mp hrun
  refine ⟨c, path_of_runLabels hc, ?_⟩
  obtain ⟨hpending, hbal⟩ := Prod.mk.inj hledger
  rw [Solvent, hpending, hbal]
  decide

open Reentrant SelfCancel in
/-- The same run with a call that leaves the scheduler alone. -/
theorem solvent_without_cancel : ∃ c, ledgerOf c = (10, 10) ∧ Solvent keeper c.committed.state := by
  have hrun : (runLabels (guardedStep (step keeper)
      fun c l => OutsidePayer keeper c l ∧ KeepsSnapshot c l) (.start 4 bank)
      (labels [])).map ledgerOf = some (10, 10) := by
    decide +kernel
  obtain ⟨c, hc, hledger⟩ := Option.map_eq_some_iff.mp hrun
  exact ⟨c, hledger, (solvent_of_path keeper 4 bank c (path_of_runLabels hc)).2⟩

end HyperPax.Scheduler
