/-
  Scheduler/Timely.lean --- no due job is left behind.

  When every block ends with its `EndBlocker`, what is still stored afterwards is due
  later.  During the dispatches of a block the entries of its own height shrink to the
  rest of the snapshot: operations inside the calls may remove entries, and what they
  write is due after the block, whoever re-enters.  Nothing here depends on the ids
  being fresh, so the counter may wrap.
-/
import HyperPax.Scheduler.Dispatch

set_option autoImplicit false

namespace HyperPax.Scheduler

open Lib List

/-! ## Blocks that end -/

/-- A configuration, and whether the block's `EndBlocker` is over. -/
structure Round where
  config : Config
  ended : Bool

/-- The machine in which `EndBlocker` runs once at every height, before the next. -/
def roundStep (k : Keeper) (r : Round) (l : Label) : Option Round :=
  match l with
  | .endBlock => if r.ended then none else (step k r.config l).map fun c => ⟨c, false⟩
  | .finish => (step k r.config l).map fun c => ⟨c, true⟩
  | .advance height =>
    if r.ended ∧ height = r.config.height + 1 then (step k r.config l).map fun c => ⟨c, false⟩
    else none
  | _ => (step k r.config l).map fun c => ⟨c, r.ended⟩

/-! ## Due entries -/

/-- The indexes are coherent, every entry is of an active job, and its block and id are
among the ones still expected. -/
structure Expected (P : UInt64 → UInt64 → Prop) (store : Store) : Prop where
  indexed : Indexed store
  active : ∀ b id j, store[jobByDueBlockKey b id]? = some (.job j) → j.active
  due : ∀ b id j, store[jobByDueBlockKey b id]? = some (.job j) → P b id

namespace Expected

variable {P Q : UInt64 → UInt64 → Prop} {store : Store} {j : Job}

theorem empty : Expected P ∅ :=
  ⟨.empty, fun _ _ _ h => by simp at h, fun _ _ _ h => by simp at h⟩

theorem mono (h : Expected P store)
    (himp : ∀ b id j, store[jobByDueBlockKey b id]? = some (.job j) → P b id → Q b id) :
    Expected Q store :=
  ⟨h.indexed, h.active, fun b id j hget => himp b id j hget (h.due b id j hget)⟩

section

variable (h : Expected P store)

include h

theorem of_getJob {id : UInt64} (hj : getJob store id = some j) :
    j.active ∧ P j.executeAtBlock j.id := by
  obtain ⟨-, hdue⟩ := h.indexed.due_of_getJob hj
  exact ⟨h.active _ _ _ hdue, h.due _ _ _ hdue⟩

theorem insert_of_not_index {k : Key} (v : Value) (hid : ¬ jobByIDKeyPrefix <+: k)
    (hdue : ¬ dueIndexPrefix <+: k) : Expected P (store.insert k v) := by
  have hget : ∀ b id, (store.insert k v)[jobByDueBlockKey b id]? =
      store[jobByDueBlockKey b id]? := by
    intro b id
    refine KVStore.get_insert_of_ne _ _ ?_
    rintro rfl
    exact hdue ⟨_, rfl⟩
  refine ⟨h.indexed.insert_of_not_index v hid hdue, ?_, ?_⟩
  · intro b id j hentry
    rw [hget] at hentry
    exact h.active b id j hentry
  · intro b id j hentry
    rw [hget] at hentry
    exact h.due b id j hentry

theorem setParams {p : Params} {store' : Store} (hset : setParams store p = .ok store') :
    Expected P store' := by
  unfold Scheduler.setParams at hset
  split at hset
  · cases hset
    exact h.insert_of_not_index _ (by decide) (by decide)
  · cases hset

theorem setJob (hactive : j.active) (hj : P j.executeAtBlock j.id) :
    Expected P (setJob store j) := by
  refine ⟨h.indexed.setJob j, ?_, ?_⟩
  · intro b id j' hentry
    rw [get_due_setJob] at hentry
    split at hentry
    · cases hentry
      exact hactive
    · exact h.active b id j' hentry
  · intro b id j' hentry
    rw [get_due_setJob] at hentry
    split at hentry
    · rename_i hkey
      obtain ⟨rfl, rfl⟩ := hkey
      exact hj
    · exact h.due b id j' hentry

theorem deleteJob (himp : ∀ b id, P b id → ¬ (j.executeAtBlock = b ∧ j.id = id) → Q b id) :
    Expected Q (deleteJob store j) := by
  have hold : ∀ b id j', (Scheduler.deleteJob store j)[jobByDueBlockKey b id]? = some (.job j') →
      ¬ (j.executeAtBlock = b ∧ j.id = id) ∧ store[jobByDueBlockKey b id]? = some (.job j') := by
    intro b id j' hentry
    rw [get_due_deleteJob] at hentry
    split at hentry
    · cases hentry
    · exact ⟨‹_›, hentry⟩
  refine ⟨h.indexed.deleteJob j, ?_, ?_⟩
  · intro b id j' hentry
    exact h.active b id j' (hold b id j' hentry).2
  intro b id j' hentry
  obtain ⟨hne, hentry⟩ := hold b id j' hentry
  exact himp b id (h.due b id j' hentry) hne

end

theorem perform {k : Keeper} {c : Context} (h : Expected P c.state.store) (env : Env)
    {height : UInt64} (op : Op) (hlater : ∀ b id, height < b → P b id) :
    Expected P (c.perform k env height op).state.store := by
  cases op with
  | schedule caller target callData block gasLimit deposit =>
    rcases execOp_schedule_cases k env height caller target callData block gasLimit deposit
      c.state with ⟨e, he⟩ | ⟨-, -, ⟨e, he⟩ | ⟨hallowed, hok⟩⟩
    · rw [perform_of_error he]
      exact h
    · rw [perform_of_error he]
      exact h
    rw [perform_of_ok hok]
    have hbump : Expected P (bumpNextJobID c.state.store) :=
      h.insert_of_not_index _ (by decide) (by decide)
    exact hbump.setJob rfl (hlater _ _ hallowed.future)
  | cancel caller jobID =>
    rcases execOp_cancel_cases k env height caller jobID c.state with ⟨e, he⟩ | ⟨j, -, -, -, hok⟩
    · rw [perform_of_error he]
      exact h
    · rw [perform_of_ok hok]
      exact h.deleteJob fun b id hP _ => hP
  | reschedule caller jobID block =>
    rcases execOp_reschedule_cases k env height caller jobID block c.state with
      ⟨_, he⟩ | ⟨j, hj, -, hfuture, hok⟩
    · rw [perform_of_error he]
      exact h
    rw [perform_of_ok hok]
    have hdeleted : Expected P (Scheduler.deleteJob c.state.store j) :=
      h.deleteJob fun b id hP _ => hP
    exact hdeleted.setJob (h.of_getJob hj).1 (hlater _ _ hfuture)

end Expected

/-! ## Rounds -/

/-- Due after the block, or at the block and still in the snapshot. -/
def LaterOr (height : UInt64) (jobs : List Job) (b id : UInt64) : Prop :=
  height < b ∨ b = height ∧ id ∈ jobs.map Job.id

/-- When a due entry is expected between transactions: not overdue, and later than a block
that has ended. -/
def NotOverdue (height : UInt64) (ended : Bool) (b _id : UInt64) : Prop :=
  if ended then height < b else height ≤ b

/-- Before the block's `EndBlocker` nothing is overdue; during it, what is due is in the
snapshot; after it, everything is due later. -/
def OnTime (r : Round) : Prop :=
  match r.config.phase with
  | .idle => Expected (NotOverdue r.config.height r.ended) r.config.now.state.store
  | .dispatching rest =>
    r.ended = false ∧ (∀ j ∈ rest, j.executeAtBlock = r.config.height) ∧
      Expected (LaterOr r.config.height rest) r.config.now.state.store
  | .inCall j rest outer =>
    r.ended = false ∧ (∀ j' ∈ j :: rest, j'.executeAtBlock = r.config.height) ∧
      Expected (LaterOr r.config.height (j :: rest)) r.config.now.state.store ∧
      Expected (LaterOr r.config.height (j :: rest)) outer.state.store

/-- What a step of the machine does to the flag. -/
def Marks (r r' : Round) : Label → Prop
  | .endBlock => r.ended = false ∧ r'.ended = false
  | .finish => r'.ended
  | .advance height => r.ended ∧ height = r.config.height + 1 ∧ r'.ended = false
  | _ => r'.ended = r.ended

variable {k : Keeper} {r r' : Round} {l : Label} {height : UInt64} {store : Store}

theorem roundStep_cases (h : roundStep k r l = some r') :
    step k r.config l = some r'.config ∧ Marks r r' l := by
  have hmap : ∀ {ended : Bool}, (step k r.config l).map (fun c => (⟨c, ended⟩ : Round)) = some r' →
      step k r.config l = some r'.config ∧ r'.ended = ended := by
    intro _ hstep
    obtain ⟨_, hc, rfl⟩ := Option.map_eq_some_iff.mp hstep
    exact ⟨hc, rfl⟩
  cases l with
  | endBlock =>
    simp only [roundStep] at h
    split at h
    · cases h
    rename_i hended
    obtain ⟨hstep, hflag⟩ := hmap h
    exact ⟨hstep, by simpa using hended, hflag⟩
  | advance =>
    simp only [roundStep] at h
    split at h
    · rename_i hnext
      obtain ⟨hstep, hflag⟩ := hmap h
      exact ⟨hstep, hnext.1, hnext.2, hflag⟩
    · cases h
  | setParams | op | callBegin | callFail | callOk | finish => exact hmap h

theorem Expected.endDispatch {j : Job} {rest : List Job}
    (h : Expected (LaterOr height (j :: rest)) store) (hj : j.executeAtBlock = height) :
    Expected (LaterOr height rest) (Scheduler.deleteJob store j) := by
  refine h.deleteJob ?_
  rintro b id (hlater | ⟨rfl, hmem⟩) hne
  · exact .inl hlater
  refine .inr ⟨rfl, ?_⟩
  rw [map_cons, mem_cons] at hmem
  cases hmem with
  | inl hid => exact absurd ⟨hj, hid.symm⟩ hne
  | inr hrest => exact hrest

theorem Expected.snapshot (h : Expected (NotOverdue height false) store) :
    (∀ j ∈ dueJobs store height, j.executeAtBlock = height) ∧
      Expected (LaterOr height (dueJobs store height)) store := by
  refine ⟨?_, h.mono ?_⟩
  · intro j hj
    exact (h.indexed.mem_jobsDueAt.mp (mem_filter.mp hj).1).1
  intro b _ j hentry hle
  by_cases hb : b = height
  · subst hb
    obtain ⟨_, hj', hkey⟩ := h.indexed.by_due _ _ hentry ⟨_, rfl⟩
    cases hj'
    obtain ⟨hblock, rfl⟩ := jobByDueBlockKey_inj.mp hkey
    refine .inr ⟨rfl, mem_map.mpr ⟨j, ?_, rfl⟩⟩
    rw [dueJobs, mem_filter]
    exact ⟨h.indexed.mem_jobsDueAt.mpr ⟨hblock.symm, hentry⟩, h.active _ _ _ hentry⟩
  · have hle : height ≤ b := hle
    exact .inl (UInt64.lt_of_le_of_ne hle (.symm hb))

theorem add_one_le_of_lt {h b : UInt64} (hlt : h < b) : h + 1 ≤ b := by
  rw [UInt64.lt_iff_toNat_lt] at hlt
  rw [UInt64.le_iff_toNat_le, UInt64.toNat_add]
  simp only [UInt64.reduceToNat]
  omega

/-- One step keeps everything on time. -/
theorem OnTime.step (hr : OnTime r) (h : roundStep k r l = some r') : OnTime r' := by
  obtain ⟨_, ended⟩ := r
  obtain ⟨_, ended'⟩ := r'
  obtain ⟨hstep, hmark⟩ := roundStep_cases h
  cases transition_of_step hstep with
  | setParams hset =>
    obtain rfl : ended' = ended := hmark
    exact .setParams hr hset
  | op =>
    obtain rfl : ended' = ended := hmark
    refine .perform hr _ _ ?_
    intro b id hlt
    unfold NotOverdue
    split
    · exact hlt
    · exact UInt64.le_of_lt hlt
  | callOp =>
    obtain rfl : ended' = ended := hmark
    obtain ⟨hopen, hdue, hnow, houter⟩ := hr
    exact ⟨hopen, hdue, hnow.perform _ _ fun b id hlt => .inl hlt, houter⟩
  | endBlock =>
    obtain ⟨rfl, rfl⟩ : ended = false ∧ ended' = false := hmark
    exact ⟨rfl, Expected.snapshot hr⟩
  | callBegin =>
    obtain rfl : ended' = ended := hmark
    exact ⟨hr.1, hr.2.1, hr.2.2, hr.2.2⟩
  | callFail =>
    rename_i height c s H j rest env
    obtain rfl : ended' = ended := hmark
    obtain ⟨hopen, hdue, -, houter⟩ := hr
    have hend := houter.endDispatch (hdue j mem_cons_self)
    simp only [OnTime, dispatchFailed, refundAndDelete_store]
    exact ⟨hopen, fun j' hj' => hdue j' (mem_cons_of_mem _ hj'), hend⟩
  | callOk =>
    rename_i height s H outer j rest env gasUsed
    obtain rfl : ended' = ended := hmark
    obtain ⟨hopen, hdue, hnow, -⟩ := hr
    have hend := hnow.endDispatch (hdue j mem_cons_self)
    simp only [OnTime, dispatchExecuted, refundAndDelete_store]
    exact ⟨hopen, fun j' hj' => hdue j' (mem_cons_of_mem _ hj'), hend⟩
  | finish =>
    obtain rfl : ended' := hmark
    refine hr.2.2.mono ?_
    rintro b id j - (hlater | ⟨-, hmem⟩)
    · exact hlater
    · cases hmem
  | advance =>
    obtain ⟨rfl, rfl, rfl⟩ : ended ∧ _ ∧ ended' = false := hmark
    refine .mono hr ?_
    rintro _ _ _ - hlater
    exact add_one_le_of_lt hlater

/-! ## Runs -/

/-- The guard that admits every step. -/
def anyRound : Round → Label → Prop := fun _ _ => True

instance (r : Round) (l : Label) : Decidable (anyRound r l) := .isTrue trivial

/-- In every run in which `EndBlocker` ends every block, whatever the dispatched calls do,
after the end of a block every stored job and every due-block entry is due later. -/
theorem none_due_after_endBlocker (k : Keeper) (height : UInt64) (bank : Ledger) (r : Round)
    (h : Path (roundStep k) anyRound ⟨.start height bank, false⟩ r) (hended : r.ended) :
    (∀ id j, getJob r.config.now.state.store id = some j → r.config.height < j.executeAtBlock) ∧
      ∀ key v, r.config.now.state.store[key]? = some v → dueIndexPrefix <+: key →
        ∃ j, v = .job j ∧ key = jobByDueBlockKey j.executeAtBlock j.id ∧
          r.config.height < j.executeAtBlock := by
  have hstart : OnTime ⟨.start height bank, false⟩ := .empty
  have hinv : OnTime r := Path.invariant (fun t l u ht _ hl => ht.step hl) hstart h
  obtain ⟨⟨height', now, phase⟩, _⟩ := r
  subst hended
  cases phase with
  | idle =>
    have hlater : Expected (NotOverdue height' true) now.state.store := hinv
    refine ⟨fun id j hj => (hlater.of_getJob hj).2, ?_⟩
    intro key v hget hpre
    obtain ⟨j, rfl, rfl⟩ := hlater.indexed.by_due key v hget hpre
    exact ⟨j, rfl, rfl, hlater.due _ _ _ hget⟩
  | dispatching | inCall => cases hinv.1

namespace SelfReschedule

open Reentrant

/-- The contract's job for block 5 moves itself to block 6 and schedules another one for
block 7 while it is being dispatched. -/
def reentrantBlock : List Label :=
  [.op freeEnv (.schedule contract contract [] 5 1 10), .endBlock, .finish, .advance 5, .endBlock,
    .callBegin, .op freeEnv (.reschedule contract 1 6),
    .op freeEnv (.schedule contract contract [] 7 1 10), .callOk freeEnv 0, .finish]

end SelfReschedule

open Reentrant SelfReschedule in
/-- After block 5 two due-block entries are left, for blocks 6 and 7. -/
theorem none_due_after_reentrant_block :
    ∃ r, Path (roundStep keeper) anyRound ⟨.start 4 bank, false⟩ r ∧ r.config.height = 5 ∧
      (r.config.now.state.store.scan dueIndexPrefix).length = 2 ∧
      ∀ id j, getJob r.config.now.state.store id = some j → 5 < j.executeAtBlock := by
  obtain ⟨r, hpath, hended, hheight, hentries⟩ :
      ∃ r, Path (roundStep keeper) anyRound ⟨.start 4 bank, false⟩ r ∧ r.ended ∧
        r.config.height = 5 ∧ (r.config.now.state.store.scan dueIndexPrefix).length = 2 :=
    exists_path (⟨.start 4 bank, false⟩ : Round) reentrantBlock (by decide +kernel)
  have hlater := none_due_after_endBlocker keeper 4 bank r hpath hended
  rw [hheight] at hlater
  exact ⟨r, hpath, hheight, hentries, hlater.1⟩

end HyperPax.Scheduler
