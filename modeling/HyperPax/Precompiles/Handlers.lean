/-
  Precompiles/Handlers.lean --- the scheduler and the streams precompile.

  Source: precompiles/scheduler/scheduler.go, precompiles/streams/{streams,
  streams_handlers}.go, precompiles/common/precompile.go (RunSetup).

  Both precompiles work on the context of the running transaction: RunSetup takes
  it from the StateDB and makes no copy, so a handler that returns an error leaves
  behind whatever its keepers wrote.  Arguments are as the ABI decodes them
  (`uint256` ids are unbounded numbers that the handlers narrow themselves).

  RunSetup puts a gas meter into the context, and HandleGasError turns its panic into
  an error of the call.  The meter is charged at every access of a store, before the
  access is made; `runMetered` has gas for a number of writes and stops at the next
  one, with what it has written.  After its last write no method accesses a store.
-/
import HyperPax.Scheduler.Keeper
import HyperPax.Streams.Keeper

set_option autoImplicit false

namespace HyperPax.Precompiles

open Lib

/-! ## The chain the precompiles share -/

/-- The two modules' stores and the balances of every token; the zero address stands
for the native coin, whose balances are the bank's. -/
structure Chain where
  scheduler : Scheduler.Store
  streams : Streams.Store
  assets : Address → Ledger

namespace Chain

/-- The bank's ledger of the EVM denomination. -/
def bank (s : Chain) : Ledger := s.assets .zero

/-- What the scheduler's keeper works on. -/
def schedulerState (s : Chain) : Scheduler.State := ⟨s.scheduler, s.bank⟩

def setSchedulerState (s : Chain) (t : Scheduler.State) : Chain :=
  { s with scheduler := t.store, assets := Function.update s.assets Address.zero t.bank }

/-- What the streams keeper works on. -/
def streamsState (s : Chain) : Streams.State := ⟨s.streams, s.assets⟩

def setStreamsState (s : Chain) (t : Streams.State) : Chain :=
  { s with streams := t.store, assets := t.assets }

variable (s : Chain)

@[simp] theorem setSchedulerState_self : s.setSchedulerState s.schedulerState = s := by
  simp [setSchedulerState, schedulerState, bank]

@[simp] theorem schedulerState_set (t : Scheduler.State) :
    (s.setSchedulerState t).schedulerState = t := by
  simp [setSchedulerState, schedulerState, bank]

@[simp] theorem setStreamsState_self : s.setStreamsState s.streamsState = s := rfl

@[simp] theorem streamsState_set (t : Streams.State) : (s.setStreamsState t).streamsState = t := rfl

end Chain

structure Keepers where
  scheduler : Scheduler.Keeper
  streams : Streams.Keeper

/-- The block and the answers of the rest of the chain during one call. -/
structure Env where
  height : UInt64
  now : UInt64
  scheduler : Scheduler.Env
  streams : Streams.Env

/-! ## Calls and errors -/

/-- The state-mutating methods of the two interfaces. -/
inductive Method where
  | schedule (target : Address) (callData : List UInt8) (executeAtBlock gasLimit : UInt64)
  | cancel (jobId : Nat)
  | reschedule (jobId : Nat) (newBlock : UInt64)
  | openStream (payee token : Address) (ratePerSecond : Nat) (startTime stopTime : UInt64)
      (cap : Nat)
  | settle (streamId : Nat)
  | close (streamId : Nat)
  | updateRate (streamId newRate : Nat)

/-- A call frame: who calls, with which value, and whether under STATICCALL. -/
structure Call where
  caller : Address
  value : Nat
  readOnly : Bool
  method : Method

/-- The errors of the handlers. -/
inductive Err where
  | outOfGas
  | writeProtection
  | outOfRange (method argument : String)
  | streamIdType
  | escrow (cause : Scheduler.Err)
  | scheduler (cause : Scheduler.Err)
  | streams (cause : Streams.Err)
deriving DecidableEq

/-! ## Handlers -/

/-- `IsUint64` and `Uint64` of a decoded `uint256`. -/
def toUint64 (n : Nat) : Option UInt64 :=
  if n < 2 ^ 64 then some (.ofNat n) else none

def onScheduler {α : Type} (wrap : Scheduler.Err → Err)
    (x : Action Scheduler.State Scheduler.Err α) : Action Chain Err α :=
  Action.zoom Chain.schedulerState Chain.setSchedulerState wrap x

def onStreams {α : Type} (x : Action Streams.State Streams.Err α) : Action Chain Err α :=
  Action.zoom Chain.streamsState Chain.setStreamsState Err.streams x

section

variable (k : Keepers) (env : Env) (caller : Address)

/-- The escrow of the call's value; nothing to do when there is none. -/
def escrowValue (value : Nat) : Action Chain Err Unit :=
  if 0 < value then
    onScheduler .escrow (Scheduler.escrowDeposit k.scheduler env.scheduler caller value)
  else pure ()

/-- `handleSchedule`, without its correction of the StateDB balance.  The result of a
handler is the list of the values it packs. -/
def handleSchedule (value : Nat) (target : Address) (callData : List UInt8)
    (executeAtBlock gasLimit : UInt64) : Action Chain Err (List Int) := do
  escrowValue k env caller value
  let jobID ← onScheduler .scheduler
    (Scheduler.schedule env.scheduler env.height caller target callData executeAtBlock gasLimit
      value)
  return [(jobID.toNat : Int)]

/-- `handleCancel`. -/
def handleCancel (jobId : Nat) : Action Chain Err (List Int) := do
  let jobID ← .orFail (toUint64 jobId) (.outOfRange "cancel" "jobId")
  onScheduler .scheduler (Scheduler.cancel k.scheduler env.scheduler caller jobID)
  return []

/-- `handleReschedule`. -/
def handleReschedule (jobId : Nat) (newBlock : UInt64) : Action Chain Err (List Int) := do
  let jobID ← .orFail (toUint64 jobId) (.outOfRange "reschedule" "jobId")
  onScheduler .scheduler (Scheduler.reschedule env.height caller jobID newBlock)
  return []

/-- `handleOpen`. -/
def handleOpen (payee token : Address) (ratePerSecond : Nat) (startTime stopTime : UInt64)
    (cap : Nat) : Action Chain Err (List Int) := do
  let streamID ← onStreams
    (Streams.openStream k.streams env.streams env.now caller payee token ratePerSecond startTime
      stopTime cap)
  return [(streamID.toNat : Int)]

/-- `decodeStreamID`. -/
def decodeStreamID (method : String) (streamId : Nat) : Action Chain Err UInt64 :=
  .orFail (toUint64 streamId) (.outOfRange method "streamId")

/-- `handleSettle`. -/
def handleSettle (streamId : Nat) : Action Chain Err (List Int) := do
  let streamID ← decodeStreamID "settle" streamId
  let paid ← onStreams (Streams.settle k.streams env.streams env.now streamID)
  return [paid]

/-- `handleClose`. -/
def handleClose (streamId : Nat) : Action Chain Err (List Int) := do
  let streamID ← decodeStreamID "close" streamId
  let final ← onStreams (Streams.close k.streams env.streams env.now streamID caller.bytes)
  return [final.1]

/-- `handleUpdateRate`: an id out of range has a text of its own here. -/
def handleUpdateRate (streamId newRate : Nat) : Action Chain Err (List Int) := do
  let streamID ← .orFail (toUint64 streamId) .streamIdType
  let _ ← onStreams
    (Streams.updateRate k.streams env.streams env.now streamID caller.bytes newRate)
  return []

end

/-- `Run` of the precompile the method belongs to, with enough gas: every method here is a
transaction, so a read-only frame is refused in RunSetup. -/
def run (k : Keepers) (env : Env) (c : Call) : Action Chain Err (List Int) := do
  Action.rejectIf c.readOnly .writeProtection
  match c.method with
  | .schedule target callData executeAtBlock gasLimit =>
    handleSchedule k env c.caller c.value target callData executeAtBlock gasLimit
  | .cancel jobId => handleCancel k env c.caller jobId
  | .reschedule jobId newBlock => handleReschedule env c.caller jobId newBlock
  | .openStream payee token ratePerSecond startTime stopTime cap =>
    handleOpen k env c.caller payee token ratePerSecond startTime stopTime cap
  | .settle streamId => handleSettle k env streamId
  | .close streamId => handleClose k env c.caller streamId
  | .updateRate streamId newRate => handleUpdateRate k env c.caller streamId newRate

/-- `Run` with gas for `gas` writes. -/
def runMetered (gas : Nat) (k : Keepers) (env : Env) (c : Call) : Action Chain Err (List Int) :=
  (run k env c).metered gas .outOfGas

end HyperPax.Precompiles
