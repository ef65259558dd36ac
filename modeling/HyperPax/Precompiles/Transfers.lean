/-
  Precompiles/Transfers.lean --- between which accounts a precompile moves native coins.

  `touched` names them from the state before the call; `run_moves` says that the bank
  after the call, failed or not, comes from the bank before it by covered transfers
  between these accounts.
-/
import HyperPax.Precompiles.Handlers

set_option autoImplicit false

namespace HyperPax.Precompiles

open Lib Action Scheduler Streams Chain

/-! ## The accounts -/

/-- The stream a method names. -/
def Chain.stream? (s : Chain) (streamId : Nat) : Option Streams.Stream :=
  (toUint64 streamId).bind (Streams.getStream s.streams)

/-- The parties of a movement, when it is one of the native coin. -/
def nativeParties (token : List UInt8) (parties : List Address) : List Address :=
  if Address.ofBytes token = Address.zero then parties else []

/-- The accounts whose bank balance a call may change. -/
def touched (k : Keepers) (s : Chain) (c : Call) : List Address :=
  match c.method with
  | .schedule _ _ _ _ => if c.value = 0 then [] else [c.caller, k.scheduler.moduleAccount]
  | .cancel _ => [k.scheduler.moduleAccount, c.caller]
  | .reschedule _ _ => []
  | .openStream _ token _ _ _ _ => nativeParties token.bytes [c.caller, k.streams.moduleAccount]
  | .settle streamId =>
    (s.stream? streamId).elim [] fun stream => nativeParties stream.token
      [k.streams.moduleAccount, .ofBytes stream.payee]
  | .close streamId =>
    (s.stream? streamId).elim [] fun stream => nativeParties stream.token
      [k.streams.moduleAccount, .ofBytes stream.payee, .ofBytes stream.payer]
  | .updateRate streamId _ =>
    (s.stream? streamId).elim [] fun stream => nativeParties stream.token
      [k.streams.moduleAccount, .ofBytes stream.payee]

/-! ## Movements -/

theorem moves_of_moved {ans : Streams.Answers} {token : List UInt8} {src dst : Address}
    {amount : Int} {t t' : Streams.State} {l : Ledger} {parties : List Address}
    (h : Streams.Moved ans token src dst amount t t')
    (hl : Ledger.Moves (nativeParties token parties) l (t.assets .zero))
    (hsrc : src ∈ parties) (hdst : dst ∈ parties) :
    Ledger.Moves (nativeParties token parties) l (t'.assets .zero) := by
  rcases h with ⟨-, rfl⟩ | ⟨-, hcov, rfl⟩
  · exact hl
  by_cases hzero : Address.ofBytes token = Address.zero
  · rw [nativeParties, if_pos hzero] at hl ⊢
    rw [hzero] at hcov ⊢
    rw [Streams.State.pay_assets_same]
    exact hl.transfer hsrc hdst hcov
  · rw [Streams.State.pay_assets_other _ _ _ _ (Ne.symm hzero)]
    exact hl

section

variable {k : Keepers} {env : Env} {s : Chain} {caller : Address} {α : Type}

theorem onStreams_bank (x : Action Streams.State Streams.Err α) :
    ((onStreams x).run s).1.bank = (x.run s.streamsState).1.assets .zero := by
  rcases hx : x.run s.streamsState with ⟨_, _ | _⟩
  · rw [onStreams, run_zoom_of_error _ _ _ hx]
    rfl
  · rw [onStreams, run_zoom_of_ok _ _ _ hx]
    rfl

theorem onScheduler_bank (wrap : Scheduler.Err → Err) (x : Action Scheduler.State Scheduler.Err α) :
    ((onScheduler wrap x).run s).1.bank = (x.run s.schedulerState).1.bank := by
  rcases hx : x.run s.schedulerState with ⟨_, _ | _⟩
  · rw [onScheduler, run_zoom_of_error _ _ _ hx]
    simp [bank, setSchedulerState]
  · rw [onScheduler, run_zoom_of_ok _ _ _ hx]
    simp [bank, setSchedulerState]

theorem handleSchedule_bank (k : Keepers) (env : Env) (s : Chain) (caller : Address) (value : Nat)
    (target : Address) (callData : List UInt8) (executeAtBlock gasLimit : UInt64) :
    let r := (handleSchedule k env caller value target callData executeAtBlock gasLimit).run s
    (0 < value ∧ r.1.bank = s.bank ∧ ∃ e, r.2 = .error e) ∨
      (value ≤ s.bank caller ∧
        r.1.bank = s.bank.transfer caller k.scheduler.moduleAccount value) := by
  intro r
  have hschedule : ∀ t : Scheduler.State,
      ((Scheduler.schedule env.scheduler env.height caller target callData executeAtBlock gasLimit
        value).run t).1.bank = t.bank := by
    intro t
    rcases schedule_cases env.scheduler env.height caller target callData executeAtBlock
      gasLimit value t with ⟨-, e, he⟩ | ⟨-, hok⟩
    · rw [he]
    · rw [hok]
      rfl
  simp only [r, handleSchedule, escrowValue]
  by_cases hpos : 0 < value
  case neg =>
    have hzero : value = 0 := by omega
    refine .inr ⟨by omega, ?_⟩
    rw [if_neg hpos, run_pure_bind, run_bind_pure_fst, onScheduler_bank, hschedule,
      hzero, Ledger.transfer_zero]
    rfl
  rw [if_pos hpos, escrowDeposit_of_pos _ _ _ (by omega), Int.toNat_natCast]
  rcases send_cases env.scheduler Scheduler.Err.bank caller k.scheduler.moduleAccount
    value s.schedulerState with ⟨-, _, he⟩ | ⟨-, hle, hok⟩
  · have hrun := run_zoom_of_error schedulerState setSchedulerState Err.escrow he
    rw [setSchedulerState_self] at hrun
    rw [onScheduler, run_bind_of_error hrun]
    exact .inl ⟨hpos, rfl, _, rfl⟩
  have hrun := run_zoom_of_ok schedulerState setSchedulerState Err.escrow hok
  rw [onScheduler, run_bind_of_ok hrun, run_bind_pure_fst, onScheduler_bank,
    hschedule, schedulerState_set]
  exact .inr ⟨hle, rfl⟩

variable (jobId streamId : Nat)

theorem handleCancel_moves : Ledger.Moves [k.scheduler.moduleAccount, caller] s.bank
      ((handleCancel k env caller jobId).run s).1.bank := by
  rw [handleCancel, run_orFail_bind]
  cases toUint64 jobId with
  | none => exact .refl
  | some jobID =>
    rw [run_bind_pure_fst, onScheduler_bank]
    rcases cancel_cases k.scheduler env.scheduler caller jobID s.schedulerState with
      ⟨_, he⟩ | ⟨_, -, -, -, hle, hok⟩
    · rw [he]
      exact .refl
    · rw [hok]
      exact Ledger.Moves.refl.transfer (by simp) (by simp) hle

theorem handleReschedule_bank (newBlock : UInt64) :
    ((handleReschedule env caller jobId newBlock).run s).1.bank = s.bank := by
  rw [handleReschedule, run_orFail_bind]
  cases toUint64 jobId with
  | none => rfl
  | some jobID =>
    rw [run_bind_pure_fst, onScheduler_bank]
    rcases reschedule_cases env.height caller jobID newBlock s.schedulerState with
      ⟨_, he⟩ | ⟨_, -, -, -, -, hok⟩
    · rw [he]
      rfl
    · rw [hok]
      rfl

theorem handleOpen_moves (payee token : Address) (ratePerSecond : Nat)
    (startTime stopTime : UInt64) (cap : Nat) :
    Ledger.Moves (nativeParties token.bytes [caller, k.streams.moduleAccount]) s.bank
      ((handleOpen k env caller payee token ratePerSecond startTime stopTime cap).run
        s).1.bank := by
  rw [handleOpen, run_bind_pure_fst, onStreams_bank]
  rcases openStream_cases k.streams env.streams env.now s.streamsState caller payee token
    ratePerSecond startTime stopTime cap with ⟨_, he⟩ | ⟨-, -, -, -, _, hmoved, hok⟩
  · rw [he]
    exact .refl
  rw [hok, Streams.State.withStore_assets]
  refine moves_of_moved hmoved ?_ (by simp) (by simp)
  exact .refl

theorem moves_of_decoded {streamId : Nat} {e : Err} {f : UInt64 → Action Chain Err α}
    {parties : Streams.Stream → List Address} (h : ∀ id, (((f id).run s).1.bank = s.bank) ∨
      ∃ stream, Streams.getStream s.streams id = some stream ∧
        Ledger.Moves (parties stream) s.bank ((f id).run s).1.bank) :
    Ledger.Moves ((s.stream? streamId).elim [] parties) s.bank
      ((.orFail (toUint64 streamId) e >>= f).run s).1.bank := by
  rw [run_orFail_bind, stream?]
  cases toUint64 streamId with
  | none => exact .refl
  | some id =>
    rcases h id with hsame | ⟨_, hget, hmoves⟩
    · rw [hsame]
      exact .refl
    · rw [Option.bind_some, hget]
      exact hmoves

theorem handleSettle_moves :
    Ledger.Moves ((s.stream? streamId).elim [] fun stream => nativeParties stream.token
        [k.streams.moduleAccount, .ofBytes stream.payee]) s.bank
      ((handleSettle k env streamId).run s).1.bank := by
  refine moves_of_decoded fun id => ?_
  rw [run_bind_pure_fst, onStreams_bank]
  rcases settle_cases k.streams env.streams env.now s.streamsState id with
    ⟨_, he⟩ | ⟨stream, hget, ⟨-, hok⟩ | ⟨-, _, hmoved, hok⟩⟩
  · rw [he]
    exact .inl rfl
  · rw [hok]
    exact .inl rfl
  rw [hok, Streams.State.withStore_assets]
  refine .inr ⟨stream, hget, moves_of_moved hmoved ?_ (by simp) (by simp)⟩
  exact .refl

theorem handleClose_moves :
    Ledger.Moves ((s.stream? streamId).elim [] fun stream => nativeParties stream.token
        [k.streams.moduleAccount, .ofBytes stream.payee, .ofBytes stream.payer])
      s.bank ((handleClose k env caller streamId).run s).1.bank := by
  refine moves_of_decoded fun id => ?_
  rw [run_bind_pure_fst, onStreams_bank]
  rcases close_cases k.streams env.streams env.now s.streamsState id caller.bytes with
    ⟨_, he⟩ | ⟨stream, _, hget, -, -, hmoved, ⟨-, _, he⟩ | ⟨_, hmoved', hok⟩⟩
  · rw [he]
    exact .inl rfl
  · rw [he]
    refine .inr ⟨stream, hget, moves_of_moved hmoved ?_ (by simp) (by simp)⟩
    exact .refl
  rw [hok, Streams.State.withStore_assets]
  refine .inr ⟨stream, hget, moves_of_moved hmoved'
    (moves_of_moved hmoved ?_ (by simp) (by simp)) (by simp) (by simp)⟩
  exact .refl

theorem handleUpdateRate_moves (newRate : Nat) :
    Ledger.Moves ((s.stream? streamId).elim [] fun stream => nativeParties stream.token
        [k.streams.moduleAccount, .ofBytes stream.payee]) s.bank
      ((handleUpdateRate k env caller streamId newRate).run s).1.bank := by
  refine moves_of_decoded fun id => ?_
  rw [run_bind_pure_fst, onStreams_bank]
  rcases updateRate_cases k.streams env.streams env.now s.streamsState id caller.bytes
    newRate with ⟨_, he⟩ | ⟨stream, _, hget, -, -, hmoved, hok⟩
  · rw [he]
    exact .inl rfl
  rw [hok, Streams.State.withStore_assets]
  refine .inr ⟨stream, hget, moves_of_moved hmoved ?_ (by simp) (by simp)⟩
  exact .refl

end

/-! ## Every call -/

theorem run_moves (k : Keepers) (env : Env) (c : Call) (s : Chain) :
    Ledger.Moves (touched k s c) s.bank ((run k env c).run s).1.bank := by
  rw [run, run_rejectIf_bind]
  split
  · exact .refl
  unfold touched
  rcases c.method with ⟨target, callData, executeAtBlock, gasLimit⟩ | ⟨jobId⟩ | ⟨jobId, _⟩ |
    ⟨payee, token, ratePerSecond, startTime, stopTime, cap⟩ | ⟨streamId⟩ | ⟨streamId⟩ |
    ⟨streamId, newRate⟩
  case schedule =>
    rcases handleSchedule_bank k env s c.caller c.value target callData executeAtBlock
      gasLimit with ⟨-, hsame, -⟩ | ⟨hle, hmoved⟩
    · dsimp only
      rw [hsame]
      exact .refl
    dsimp only
    rw [hmoved]
    split
    · rename_i hzero
      rw [hzero, Ledger.transfer_zero]
      exact .refl
    · exact Ledger.Moves.refl.transfer (by simp) (by simp) hle
  case cancel => exact handleCancel_moves jobId
  case reschedule =>
    rw [handleReschedule_bank]
    exact .refl
  case openStream => exact handleOpen_moves payee token ratePerSecond startTime stopTime cap
  case settle => exact handleSettle_moves streamId
  case close => exact handleClose_moves streamId
  case updateRate => exact handleUpdateRate_moves streamId newRate

end HyperPax.Precompiles
