/-
  Evm/BlockLogs.lean --- the bloom and the log indices of a block.

  Source: x/evm/keeper/state_transition.go (ApplyTransaction), x/evm/keeper/keeper.go (the bloom and
  the log size of the transient store), x/evm/statedb/statedb.go (AddLog).

  The bloom and the counter follow the receipt of a transaction.  Its response has the same logs,
  except that they are cleared where the post-processing fails.
-/
import Mathlib.Data.List.Basic

set_option autoImplicit false

namespace HyperPax.Evm

open List

/-- A transaction that is not applied, or its logs with whether it failed and whether a hook
failed after it. -/
inductive Execution (Log : Type) where
  | rejected
  | executed (logs : List Log) (failed hookFailed : Bool)

/-- The transient store, and the logs of the responses with their indices. -/
structure BlockLogs (Log : Type) where
  bloom : BitVec 2048
  logSize : Nat
  reported : List (Log × Nat)

variable {Log : Type} (bits : Log → BitVec 2048)

/-- `LogsBloom`, over the bits of a log. -/
def logsBloom (logs : List Log) : BitVec 2048 := logs.foldr (fun log bloom => bits log ||| bloom) 0

/-- The logs of the response: `AddLog` numbers them from the size of the block's logs on. -/
def Execution.response (logSize : Nat) : Execution Log → List (Log × Nat)
  | .rejected | .executed _ false true => []
  | .executed logs _ _ => logs.zipIdx logSize

/-- `ApplyTransaction`: what it does to the transient store. -/
def BlockLogs.applyTransaction (b : BlockLogs Log) (x : Execution Log) : BlockLogs Log :=
  match x with
  | .rejected | .executed [] _ _ => b
  | .executed logs _ _ =>
    { bloom := b.bloom ||| logsBloom bits logs
      logSize := b.logSize + logs.length
      reported := b.reported ++ x.response b.logSize }

/-- A block of transactions. -/
def blockLogs (xs : List (Execution Log)) : BlockLogs Log :=
  xs.foldl (BlockLogs.applyTransaction bits) ⟨0, 0, []⟩

/-- The bloom is that of the reported logs, these are numbered from 0 on, and so will be the
next. -/
structure BlockLogs.Matches (b : BlockLogs Log) : Prop where
  bloom : b.bloom = logsBloom bits (b.reported.map Prod.fst)
  indices : b.reported.map Prod.snd = List.range' 0 b.reported.length
  logSize : b.logSize = b.reported.length

/-- No logs are cleared. -/
def Execution.Kept (x : Execution Log) : Prop :=
  ∀ logs, x = .executed logs false true → logs = []

variable {bits} {b : BlockLogs Log} {x : Execution Log}

theorem logsBloom_append (logs logs' : List Log) :
    logsBloom bits (logs ++ logs') = logsBloom bits logs ||| logsBloom bits logs' := by
  induction logs with
  | nil => exact (BitVec.zero_or).symm
  | cons log logs ih => exact (congrArg _ ih).trans (BitVec.or_assoc ..).symm

theorem applyTransaction_cases (bits : Log → BitVec 2048) (b : BlockLogs Log) (x : Execution Log) :
    (b.applyTransaction bits x = b ∧ x.Kept) ∨
      (∃ logs, b.applyTransaction bits x = ⟨b.bloom ||| logsBloom bits logs,
        b.logSize + logs.length, b.reported ++ logs.zipIdx b.logSize⟩ ∧ x.Kept) ∨
      ∃ logs, (b.applyTransaction bits x).logSize = b.logSize + logs.length ∧ logs ≠ [] ∧
        (b.applyTransaction bits x).reported = b.reported ∧ x = .executed logs false true := by
  rcases x with _ | ⟨_ | ⟨log, logs⟩, failed, hookFailed⟩
  · exact .inl ⟨rfl, fun _ hx => by cases hx⟩
  · refine .inl ⟨rfl, fun logs hx => ?_⟩
    cases hx
    rfl
  cases failed <;> cases hookFailed
  · exact .inr (.inl ⟨_, rfl, fun _ hx => by cases hx⟩)
  · exact .inr (.inr ⟨_, rfl, cons_ne_nil _ _, append_nil _, rfl⟩)
  · exact .inr (.inl ⟨_, rfl, fun _ hx => by cases hx⟩)
  · exact .inr (.inl ⟨_, rfl, fun _ hx => by cases hx⟩)

theorem BlockLogs.Matches.applyTransaction (hb : b.Matches bits) (hx : x.Kept) :
    (b.applyTransaction bits x).Matches bits := by
  rcases applyTransaction_cases bits b x with
    ⟨h, _⟩ | ⟨logs, h, _⟩ | ⟨logs, _, hne, _, rfl⟩
  · rwa [h]
  · rw [h]
    refine ⟨?_, ?_, ?_⟩
    · rw [map_append, zipIdx_map_fst, logsBloom_append, hb.bloom]
    · rw [map_append, zipIdx_map_snd, hb.indices, hb.logSize, length_append,
        length_zipIdx, ← range'_append_1, Nat.zero_add]
    · rw [length_append, length_zipIdx, hb.logSize]
  · exact absurd (hx logs rfl) hne

theorem counted_of_foldl {xs : List (Execution Log)} (hle : b.reported.length ≤ b.logSize)
    (h : (xs.foldl (BlockLogs.applyTransaction bits) b).logSize =
      (xs.foldl (BlockLogs.applyTransaction bits) b).reported.length) :
    b.logSize = b.reported.length ∧ ∀ x ∈ xs, x.Kept := by
  induction xs generalizing b with
  | nil => exact ⟨h, fun _ hx => absurd hx not_mem_nil⟩
  | cons x xs ih =>
    rw [foldl_cons] at h
    rw [forall_mem_cons]
    rcases applyTransaction_cases bits b x with
      ⟨heq, hx⟩ | ⟨logs, heq, hx⟩ | ⟨logs, hsize, hne, hreported, _⟩
    · rw [heq] at h
      obtain ⟨hb, hxs⟩ := ih hle h
      exact ⟨hb, hx, hxs⟩
    · rw [heq] at h
      obtain ⟨hb, hxs⟩ := ih (by simpa using hle) h
      rw [length_append, length_zipIdx] at hb
      exact ⟨Nat.add_right_cancel hb, hx, hxs⟩
    have hpos := length_pos_of_ne_nil hne
    have hb := (ih (by rw [hsize, hreported]; omega) h).1
    rw [hsize, hreported] at hb
    omega

/-- The block's bloom and indices match its responses exactly if no transaction with logs fails
in its post-processing. -/
theorem blockLogs_match_iff (bits : Log → BitVec 2048) (xs : List (Execution Log)) :
    (blockLogs bits xs).Matches bits ↔ ∀ x ∈ xs, x.Kept := by
  refine ⟨fun h => (counted_of_foldl (b := ⟨0, 0, []⟩) (Nat.le_refl 0) h.logSize).2, fun h => ?_⟩
  refine foldlRecOn xs (BlockLogs.applyTransaction bits) (b := ⟨0, 0, []⟩)
    ⟨rfl, rfl, rfl⟩ fun b hb x hx => ?_
  exact BlockLogs.Matches.applyTransaction hb (h x hx)

/-- A log is cleared, and the next transaction reports its log under the index 1. -/
theorem blockLogs_cleared :
    (blockLogs (fun _ => 0) [.executed ["a"] false true, .executed ["b"] false false]).reported =
      [("b", 1)] :=
  rfl

end HyperPax.Evm
