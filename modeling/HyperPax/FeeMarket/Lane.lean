/-
  FeeMarket/Lane.lean --- the members of the agent lane.

  Source: x/feemarket/keeper/lane_hook.go, x/evm/keeper/state_transition.go (ApplyTransaction),
  x/scheduler/keeper/abci.go (dispatchJob), x/erc20/keeper/evm.go (CallEVMWithData).

  The members are kept by a hook that reads the logs of a transaction.  A call that the scheduler
  dispatches commits its state as well, but no hook sees its logs.
-/
import HyperPax.Base.Address
import HyperPax.Lib.Transition

set_option autoImplicit false

namespace HyperPax.FeeMarket

open Lib

structure Log where
  address : Address
  topics : List (List UInt8)

/-- The registry and the two topics, which are hashes. -/
structure Lane where
  registry : Address
  laneRegistrationTopic : List UInt8
  laneDeregistrationTopic : List UInt8

variable (p : Lane)

/-- The switch of the hook: the address a log of the registry is about, and whether it is registered
or deregistered. -/
def Lane.parse (log : Log) : Option (Address × Bool) :=
  if log.address = p.registry then
    match log.topics with
    | topic :: account :: _ =>
      if topic = p.laneRegistrationTopic then some (.ofBytes account, true)
      else if topic = p.laneDeregistrationTopic then some (.ofBytes account, false)
      else none
    | _ => none
  else none

/-- One iteration of the hook. -/
def Lane.mirror (members : Address → Bool) (log : Log) : Address → Bool :=
  match p.parse log with
  | some (account, member) => Function.update members account member
  | none => members

/-- What a log says of an address. -/
def Lane.event (a : Address) (log : Log) : Option Bool :=
  (p.parse log).bind fun e => if e.1 = a then some e.2 else none

/-- The last of the events of an address. -/
def Lane.lastEvent (a : Address) (logs : List Log) : Option Bool :=
  (logs.filterMap (p.event a)).getLast?

/-- `PostTxProcessing`. -/
def Lane.postTxProcessing (members : Address → Bool) (logs : List Log) : Address → Bool :=
  if p.registry = Address.zero then members else logs.foldl p.mirror members

/-- What happens to the EVM: a transaction, with whether it fails and whether a hook does, or a
call of the scheduler, with whether it fails. -/
inductive Execution where
  | transaction (logs : List Log) (failed hookFailed : Bool)
  | dispatched (logs : List Log) (failed : Bool)

/-- The members, and the logs of the executions that were committed. -/
structure State where
  members : Address → Bool
  committed : List Log

/-- One execution: the hook follows a transaction that succeeds, and no dispatched call. -/
def State.step (s : State) : Execution → Option State
  | .transaction logs false false => some ⟨p.postTxProcessing s.members logs, s.committed ++ logs⟩
  | .dispatched logs false => some { s with committed := s.committed ++ logs }
  | .transaction _ _ _ | .dispatched _ true => some s

/-- The members are the addresses whose last event is a registration. -/
def State.Mirrors (s : State) : Prop :=
  ∀ a, s.members a ↔ p.lastEvent a s.committed = some true

/-- The logs of a dispatched call say nothing new. -/
def Unseen (s : State) : Execution → Prop
  | .dispatched logs false => ∀ a, (p.lastEvent a logs).getD (s.members a) = s.members a
  | _ => True

variable {p} {members : Address → Bool} {a : Address}

theorem mirror_apply (log : Log) : p.mirror members log a = (p.event a log).getD (members a) := by
  unfold Lane.mirror Lane.event
  cases p.parse log with
  | none => rfl
  | some e =>
    dsimp only
    rw [Function.update_apply, Option.bind_some]
    by_cases ha : e.1 = a
    · rw [if_pos ha.symm, if_pos ha]
      rfl
    · rw [if_neg (Ne.symm ha), if_neg ha]
      rfl

theorem foldl_mirror (logs : List Log) :
    logs.foldl p.mirror members a = (p.lastEvent a logs).getD (members a) := by
  induction logs generalizing members with
  | nil => rfl
  | cons log logs ih =>
    rw [List.foldl_cons, ih, mirror_apply, Lane.lastEvent, Lane.lastEvent]
    cases hevent : p.event a log with
    | none => rw [List.filterMap_cons_none hevent]; rfl
    | some r => rw [List.filterMap_cons_some hevent, List.getLast?_cons]; rfl

theorem lastEvent_append (logs logs' : List Log) :
    p.lastEvent a (logs ++ logs') = (p.lastEvent a logs').or (p.lastEvent a logs) := by
  rw [Lane.lastEvent, List.filterMap_append, List.getLast?_append]
  rfl

theorem State.Mirrors.append {s : State} (h : s.Mirrors p) (members : Address → Bool)
    (logs : List Log) : State.Mirrors p ⟨members, s.committed ++ logs⟩ ↔
      ∀ a, (p.lastEvent a logs).getD (s.members a) = members a := by
  refine forall_congr' fun a => ?_
  have ha := h a
  rw [lastEvent_append]
  cases p.lastEvent a logs with
  | none =>
    rw [Option.none_or, ← ha, Option.getD_none]
    exact iff_comm.trans Bool.eq_iff_iff.symm
  | some r => cases r <;> cases hm : members a <;> simp [hm]

/-- The registration of the account 7 by the registry 1. -/
def registers : Lane × List Log :=
  (⟨Address.ofNat 1, [1], [2]⟩, [⟨Address.ofNat 1, [[1], [7]]⟩])

end HyperPax.FeeMarket
