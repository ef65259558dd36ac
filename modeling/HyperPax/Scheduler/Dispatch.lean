/-
  Scheduler/Dispatch.lean --- a job is dispatched once, at its own block.

  The argument follows the history of one context.  A stored record is `Live` in
  the history: it was scheduled, its last block is the one in the record, and it
  has been neither cancelled nor dispatched.  The one exception is the job whose
  call is running, whose record is deleted only when its dispatch ends.
-/
import HyperPax.Scheduler.EndBlocker
import HyperPax.Lib.History

set_option autoImplicit false

namespace HyperPax.Scheduler

open Lib KVStore List

/-! ## Histories -/

/-- The job an event is about. -/
def Event.id : Event → UInt64
  | .scheduled id _ => id
  | .cancelled id => id
  | .rescheduled id _ => id
  | .dispatched id _ => id

/-- The event is a dispatch of `id`. -/
def Event.dispatches (id : UInt64) : Event → Bool
  | .dispatched i _ => i == id
  | _ => false

/-- The block a job was last scheduled or rescheduled for. -/
def lastBlock (id : UInt64) (H : List Event) : Option UInt64 :=
  H.foldl (fun b e =>
    match e with
    | .scheduled i block => if i = id then some block else b
    | .rescheduled i block => if i = id then some block else b
    | _ => b) none

/-- Scheduled, and neither cancelled nor dispatched since; `block` is when it is
due. -/
structure Live (H : List Event) (id block : UInt64) : Prop where
  undispatched : ∀ height, .dispatched id height ∉ H
  uncancelled : .cancelled id ∉ H
  due : lastBlock id H = some block

/-- Every dispatch in the history is of a job that was live, at its block. -/
def Orderly (H : List Event) : Prop :=
  Chronological (fun past e => ∀ id height, e = .dispatched id height → Live past id height) H

/-- At most one dispatch for each id; none after a cancellation; and each one at
the block last asked for. -/
def DispatchedAsAsked (H : List Event) : Prop :=
  (∀ id, H.countP (Event.dispatches id) ≤ 1) ∧
    ∀ (pre post : List Event) (id height : UInt64),
      H = pre ++ .dispatched id height :: post →
        .cancelled id ∉ pre ∧ lastBlock id pre = some height

namespace Live

variable {H : List Event} {id block : UInt64}

theorem append_other (h : Live H id block) {e : Event} (he : e.id ≠ id) :
    Live (H ++ [e]) id block where
  undispatched height hmem := by
    rcases mem_append.mp hmem with hmem | hmem
    · exact h.undispatched height hmem
    · rw [mem_singleton] at hmem
      exact he (by rw [← hmem]; rfl)
  uncancelled hmem := by
    rcases mem_append.mp hmem with hmem | hmem
    · exact h.uncancelled hmem
    · rw [mem_singleton] at hmem
      exact he (by rw [← hmem]; rfl)
  due := by
    rw [← h.due, lastBlock, lastBlock, foldl_append]
    cases e <;> simp only [foldl_cons, foldl_nil] <;>
      first | rfl | exact if_neg he

theorem reschedule (h : Live H id block) (block' : UInt64) :
    Live (H ++ [.rescheduled id block']) id block' where
  undispatched height hmem := by
    rcases mem_append.mp hmem with hmem | hmem
    · exact h.undispatched height hmem
    · simp at hmem
  uncancelled hmem := by
    rcases mem_append.mp hmem with hmem | hmem
    · exact h.uncancelled hmem
    · simp at hmem
  due := by simp [lastBlock]

theorem of_fresh (h : ∀ e ∈ H, e.id ≠ id) : Live (H ++ [.scheduled id block]) id block where
  undispatched height hmem := by
    rcases mem_append.mp hmem with hmem | hmem
    · exact h _ hmem rfl
    · simp at hmem
  uncancelled hmem := by
    rcases mem_append.mp hmem with hmem | hmem
    · exact h _ hmem rfl
    · simp at hmem
  due := by simp [lastBlock]

end Live

namespace Orderly

variable {H : List Event}

theorem countP_le_one (h : Orderly H) (id : UInt64) : H.countP (Event.dispatches id) ≤ 1 := by
  induction H using List.reverseRecOn with
  | nil => exact Nat.zero_le _
  | append_singleton H e ih =>
    have hH := ih (Chronological.of_append h)
    rw [countP_append, countP_singleton]
    split
    · rename_i hdispatch
      -- the last event dispatches `id`, so nothing before it did
      have hnone : H.countP (Event.dispatches id) = 0 := by
        rw [countP_eq_zero]
        intro e' he' hd
        cases e with
        | dispatched i height =>
          have hi : i = id := by simpa [Event.dispatches] using hdispatch
          subst hi
          have hlive := Chronological.last h i height rfl
          cases e' with
          | dispatched i' height' =>
            have hi' : i' = i := by simpa [Event.dispatches] using hd
            subst hi'
            exact hlive.undispatched height' he'
          | _ => simp [Event.dispatches] at hd
        | _ => simp [Event.dispatches] at hdispatch
      omega
    · omega

theorem dispatchedAsAsked (h : Orderly H) : DispatchedAsAsked H := by
  refine ⟨h.countP_le_one, ?_⟩
  intro pre post id height heq
  have hlive := h pre _ post heq id height rfl
  exact ⟨hlive.uncancelled, hlive.due⟩

end Orderly

/-! ## Records and due-block entries match -/

/-- The indexes are coherent in both directions: a due-block entry is also the
record of its id. -/
structure Matched (store : Store) : Prop extends Indexed store where
  record_of_due : ∀ h id j, store[jobByDueBlockKey h id]? = some (.job j) →
    getJob store id = some j

namespace Matched

variable {store : Store} {j : Job}

theorem empty : Matched ∅ := ⟨.empty, fun h id j hget => by simp at hget⟩

theorem due_entry (hs : Matched store) {h id : UInt64} {v : Value}
    (hget : store[jobByDueBlockKey h id]? = some v) :
    ∃ j, v = .job j ∧ j.executeAtBlock = h ∧ j.id = id := by
  obtain ⟨j, rfl, hk⟩ := hs.by_due _ _ hget ⟨_, rfl⟩
  obtain ⟨rfl, rfl⟩ := jobByDueBlockKey_inj.mp hk
  exact ⟨j, rfl, rfl, rfl⟩

variable (hs : Matched store)

include hs

theorem due_deleteJob_self (hj : getJob store j.id = some j) (h : UInt64) :
    (deleteJob store j)[jobByDueBlockKey h j.id]? = none := by
  rw [get_due_deleteJob]
  split
  · rfl
  rename_i hne
  cases hget : store[jobByDueBlockKey h j.id]? with
  | none => rfl
  | some =>
    obtain ⟨_, rfl, hblock, -⟩ := hs.due_entry hget
    have hsame := hs.record_of_due _ _ _ hget
    rw [hj] at hsame
    cases hsame
    exact absurd ⟨hblock, rfl⟩ hne

theorem deleteJob (hj : getJob store j.id = some j) : Matched (deleteJob store j) where
  toIndexed := hs.toIndexed.deleteJob j
  record_of_due h id j' hget := by
    by_cases hid : j.id = id
    · subst hid
      rw [hs.due_deleteJob_self hj] at hget
      cases hget
    · rw [get_due_deleteJob, if_neg (fun he => hid he.2)] at hget
      rw [getJob_deleteJob, if_neg hid]
      exact hs.record_of_due h id j' hget

theorem setJob (hnone : ∀ h, store[jobByDueBlockKey h j.id]? = none) :
    Matched (setJob store j) where
  toIndexed := hs.toIndexed.setJob j
  record_of_due h id j' hget := by
    rw [get_due_setJob] at hget
    split at hget
    · rename_i hkey
      cases hget
      rw [getJob_setJob, if_pos hkey.2]
    by_cases hid : j.id = id
    · subst hid
      rw [hnone] at hget
      cases hget
    · rw [getJob_setJob, if_neg hid]
      exact hs.record_of_due h id j' hget

theorem insert_of_not_index {k : Key} (v : Value) (hid : ¬ jobByIDKeyPrefix <+: k)
    (hdue : ¬ dueIndexPrefix <+: k) : Matched (store.insert k v) where
  toIndexed := hs.toIndexed.insert_of_not_index v hid hdue
  record_of_due h id j hget := by
    have hk : k ≠ jobByDueBlockKey h id := fun he => hdue (he ▸ ⟨_, rfl⟩)
    have hk' : k ≠ jobByIDKey id := fun he => hid (he ▸ ⟨_, rfl⟩)
    rw [get_insert_of_ne _ _ hk] at hget
    rw [getJob, get_insert_of_ne _ _ hk']
    exact hs.record_of_due h id j hget

end Matched

/-! ## Ids -/

/-- The counter has wrapped around: the next id handed out is one again. -/
def CounterWrapped (store : Store) : Prop :=
  storedCounter store = some 0
deriving Decidable

/-- The ids of stored records and of past events. -/
def UsedId (store : Store) (H : List Event) (id : UInt64) : Prop :=
  (∃ e ∈ H, e.id = id) ∨ ∃ j, getJob store id = some j

theorem UsedId.of_append {store store' : Store} {H es : List Event} {id : UInt64}
    (h : UsedId store' (H ++ es) id)
    (hrecords : ∀ id j, getJob store' id = some j → ∃ j', getJob store id = some j')
    (hes : ∀ e ∈ es, ∃ j, getJob store e.id = some j) : UsedId store H id := by
  rcases h with ⟨e, he, rfl⟩ | ⟨j, hj⟩
  · rcases mem_append.mp he with he | he
    · exact .inl ⟨e, he, rfl⟩
    · exact .inr (hes e he)
  · exact .inr (hrecords id j hj)

/-! ## Contexts -/

/-- What the store and the history of a context have to do with each other.
`running` is the id of the job whose call is being made, if there is one. -/
structure Chronicle (running : Option UInt64) (store : Store) (H : List Event) : Prop where
  matched : Matched store
  live : ∀ id j, getJob store id = some j → some id ≠ running → Live H id j.executeAtBlock
  ids : IdsBelow (storedCounter store) (UsedId store H)
  orderly : Orderly H

namespace Chronicle

variable {running : Option UInt64} {store : Store} {H : List Event} {j : Job} {id : UInt64}

theorem start : Chronicle none ∅ [] where
  matched := .empty
  live id j hj := by simp [getJob] at hj
  ids := .inr fun id hid => by
    rcases hid with ⟨_, he, -⟩ | ⟨_, hj⟩
    · simp at he
    · simp [getJob] at hj
  orderly := .nil

theorem schedule (hc : Chronicle running store H) (hwrap : ¬ CounterWrapped store)
    (creator target : Address) (callData : List UInt8) (block gasLimit : UInt64) (deposit : Int) :
    Chronicle running (setJob (bumpNextJobID store)
        (newJob store creator target callData block gasLimit deposit))
      (H ++ [.scheduled (nextJobID store) block]) := by
  have hbelow := hc.ids.resolve_left hwrap
  -- no record and no entry uses the new id
  have hnone : ∀ h, (bumpNextJobID store)[jobByDueBlockKey h (nextJobID store)]? = none := by
    intro h
    rw [get_due_bumpNextJobID]
    cases hentry : store[jobByDueBlockKey h (nextJobID store)]? with
    | none => rfl
    | some =>
      obtain ⟨j, rfl, -, -⟩ := hc.matched.due_entry hentry
      have hrecord := hbelow _ (.inr ⟨j, hc.matched.record_of_due _ _ _ hentry⟩)
      exact absurd hrecord (UInt64.lt_irrefl _)
  have hbump : Matched (bumpNextJobID store) :=
    hc.matched.insert_of_not_index _ (by decide) (by decide)
  refine ⟨hbump.setJob hnone, ?_, ?_, ?_⟩
  · intro id j hj hrunning
    rw [getJob_setJob] at hj
    split at hj
    · rename_i hid
      cases hj
      subst hid
      exact Live.of_fresh fun e he => UInt64.ne_of_lt (hbelow _ (.inl ⟨e, he, rfl⟩))
    · rename_i hid
      rw [getJob, get_id_bumpNextJobID] at hj
      exact (hc.live id j hj hrunning).append_other hid
  · rw [storedCounter_setJob, storedCounter_bumpNextJobID]
    refine .allocate hbelow ?_
    rintro id (⟨e, he, rfl⟩ | ⟨j, hj⟩)
    · rcases mem_append.mp he with he | he
      · exact .inl (.inl ⟨e, he, rfl⟩)
      rw [mem_singleton] at he
      subst he
      exact .inr rfl
    · rw [getJob_setJob] at hj
      split at hj
      · rename_i hid
        exact .inr hid.symm
      · rw [getJob, get_id_bumpNextJobID] at hj
        exact .inl (.inr ⟨j, hj⟩)
  · exact .append hc.orderly fun id height he => by cases he

section

variable (hc : Chronicle running store H) (hj : getJob store id = some j)

include hc hj

theorem cancel : Chronicle running (deleteJob store j) (H ++ [.cancelled id]) := by
  obtain ⟨rfl, -⟩ := hc.matched.due_of_getJob hj
  refine ⟨hc.matched.deleteJob hj, ?_, ?_, ?_⟩
  · intro id' j' hj' hrunning
    rw [getJob_deleteJob] at hj'
    split at hj'
    · cases hj'
    · rename_i hid
      exact (hc.live id' j' hj' hrunning).append_other hid
  · rw [storedCounter_deleteJob]
    refine hc.ids.mono fun id' hid' => hid'.of_append ?_ ?_
    · intro _ j' hj'
      rw [getJob_deleteJob] at hj'
      split at hj'
      · cases hj'
      · exact ⟨j', hj'⟩
    · intro _ he
      rw [mem_singleton] at he
      subst he
      exact ⟨j, hj⟩
  · exact .append hc.orderly fun id height he => by cases he

theorem reschedule (block : UInt64) :
    Chronicle running (setJob (deleteJob store j) { j with executeAtBlock := block })
      (H ++ [.rescheduled id block]) := by
  obtain ⟨rfl, -⟩ := hc.matched.due_of_getJob hj
  have hrecord : ∀ id' j', getJob (setJob (deleteJob store j) { j with executeAtBlock := block })
      id' = some j' →
      (id' = j.id ∧ j' = { j with executeAtBlock := block }) ∨
        (j.id ≠ id' ∧ getJob store id' = some j') := by
    intro id' j' hj'
    rw [getJob_setJob] at hj'
    split at hj'
    · rename_i hid
      cases hj'
      exact .inl ⟨hid.symm, rfl⟩
    · rename_i hid
      rw [getJob_deleteJob, if_neg hid] at hj'
      exact .inr ⟨hid, hj'⟩
  refine ⟨(hc.matched.deleteJob hj).setJob (hc.matched.due_deleteJob_self hj), ?_, ?_, ?_⟩
  · intro id' j' hj' hrunning
    rcases hrecord id' j' hj' with ⟨rfl, rfl⟩ | ⟨hid, hold⟩
    · exact (hc.live _ j hj hrunning).reschedule block
    · exact (hc.live id' j' hold hrunning).append_other hid
  · rw [storedCounter_setJob, storedCounter_deleteJob]
    refine hc.ids.mono fun id' hid' => hid'.of_append ?_ ?_
    · intro id' j' hj'
      rcases hrecord id' j' hj' with ⟨rfl, -⟩ | ⟨-, hold⟩
      · exact ⟨j, hj⟩
      · exact ⟨j', hold⟩
    intro _ he
    rw [mem_singleton] at he
    subst he
    exact ⟨j, hj⟩
  · exact .append hc.orderly fun id height he => by cases he

end

theorem perform {k : Keeper} {c : Context} (hc : Chronicle running c.state.store c.history)
    (env : Env) (height : UInt64) (op : Op)
    (hwrap : op.payer?.isSome → ¬ CounterWrapped c.state.store) :
    Chronicle running (c.perform k env height op).state.store
      (c.perform k env height op).history := by
  cases op with
  | schedule caller target callData block gasLimit deposit =>
    rcases execOp_schedule_cases k env height caller target callData block gasLimit deposit
      c.state with ⟨e, he⟩ | ⟨-, -, ⟨e, he⟩ | ⟨-, hok⟩⟩
    · rw [perform_of_error he]
      exact hc
    · rw [perform_of_error he]
      exact hc
    · rw [perform_of_ok hok]
      exact hc.schedule (hwrap rfl) caller target callData block gasLimit deposit
  | cancel caller jobID =>
    rcases execOp_cancel_cases k env height caller jobID c.state with ⟨e, he⟩ | ⟨j, hj, -, -, hok⟩
    · rw [perform_of_error he]
      exact hc
    · rw [perform_of_ok hok]
      exact hc.cancel hj
  | reschedule caller jobID block =>
    rcases execOp_reschedule_cases k env height caller jobID block c.state with
      ⟨_, he⟩ | ⟨_, hj, -, -, hok⟩
    · rw [perform_of_error he]
      exact hc
    · rw [perform_of_ok hok]
      exact hc.reschedule hj block

variable {height : UInt64}

theorem callBegin (hc : Chronicle none store H) (hlisted : j ∈ jobsDueAt store height) :
    Chronicle (some j.id) store (H ++ [.dispatched j.id height]) := by
  obtain ⟨rfl, hcopy⟩ := hc.matched.mem_jobsDueAt.mp hlisted
  have hj := hc.matched.record_of_due _ _ _ hcopy
  refine ⟨hc.matched, ?_, ?_, ?_⟩
  · intro id' j' hj' hrunning
    refine (hc.live id' j' hj' (by simp)).append_other ?_
    intro he
    exact hrunning (by rw [← he]; rfl)
  · refine hc.ids.mono fun id' hid' => hid'.of_append (fun id' j' hj' => ⟨j', hj'⟩) ?_
    intro _ he
    rw [mem_singleton] at he
    subst he
    exact ⟨j, hj⟩
  · refine .append hc.orderly ?_
    intro _ _ he
    cases he
    exact hc.live _ j hj (by simp)

theorem callEnd (hc : Chronicle (some j.id) store H) (hlisted : j ∈ jobsDueAt store height) :
    Chronicle none (deleteJob store j) H := by
  obtain ⟨rfl, hcopy⟩ := hc.matched.mem_jobsDueAt.mp hlisted
  have hj := hc.matched.record_of_due _ _ _ hcopy
  have hrecord : ∀ id' j', getJob (deleteJob store j) id' = some j' →
      j.id ≠ id' ∧ getJob store id' = some j' := by
    intro id' j' hj'
    rw [getJob_deleteJob] at hj'
    split at hj'
    · cases hj'
    · exact ⟨‹_›, hj'⟩
  refine ⟨hc.matched.deleteJob hj, ?_, ?_, hc.orderly⟩
  · intro id' j' hj' _
    obtain ⟨hid, hold⟩ := hrecord id' j' hj'
    exact hc.live id' j' hold (fun he => hid (Option.some.inj he).symm)
  rw [storedCounter_deleteJob]
  refine hc.ids.mono ?_
  rintro id' (hpast | ⟨j', hj'⟩)
  · exact .inl hpast
  · exact .inr ⟨j', (hrecord id' j' hj').2⟩

theorem insertParams (hc : Chronicle running store H) {p : Params} {store' : Store}
    (h : setParams store p = .ok store') : Chronicle running store' H := by
  have hstore : store' = store.insert paramsKey (.params p) := by
    unfold setParams at h
    split at h
    · cases h
      rfl
    · cases h
  have hget : ∀ id, getJob store' id = getJob store id := by
    intro id
    rw [hstore, getJob, getJob, get_insert_of_ne _ _ (paramsKey_ne_idKey id)]
  have hcounter : storedCounter store' = storedCounter store := by
    rw [hstore, storedCounter, storedCounter, get_insert_of_ne _ _ (by decide)]
  refine ⟨?_, ?_, ?_, hc.orderly⟩
  · rw [hstore]
    exact hc.matched.insert_of_not_index _ (by decide) (by decide)
  · intro id j hj
    rw [hget] at hj
    exact hc.live id j hj
  rw [hcounter]
  refine hc.ids.mono ?_
  rintro id (hpast | ⟨j, hj⟩)
  · exact .inl hpast
  · exact .inr ⟨j, by rw [← hget]; exact hj⟩

end Chronicle

/-! ## Configurations -/

/-- The chronicle of a configuration, in each of its phases. -/
def Chronicled (c : Config) : Prop :=
  match c.phase with
  | .idle => Chronicle none c.now.state.store c.now.history
  | .dispatching rest =>
    Chronicle none c.now.state.store c.now.history ∧ Queued c.height rest c.now.state.store
  | .inCall j rest outer =>
    Chronicle (some j.id) c.now.state.store c.now.history ∧
      Chronicle (some j.id) outer.state.store outer.history ∧
      Queued c.height (j :: rest) outer.state.store

/-- Nothing is scheduled after the 64-bit counter has wrapped around. -/
def FreshIds : Config → Label → Prop
  | c, .op _ o => o.payer?.isSome → ¬ CounterWrapped c.now.state.store
  | _, _ => True

instance (c : Config) (l : Label) : Decidable (FreshIds c l) := by
  unfold FreshIds
  split <;> infer_instance

variable {c : Config}

theorem Chronicled.step {k : Keeper} {c' : Config} {l : Label} (hc : Chronicled c)
    (hfresh : FreshIds c l) (hkeeps : KeepsSnapshot c l) (h : step k c l = some c') :
    Chronicled c' := by
  cases transition_of_step h with
  | setParams hset => exact .insertParams hc hset
  | op => exact .perform hc _ _ _ hfresh
  | callOp => exact ⟨.perform hc.1 _ _ _ hfresh, hc.2⟩
  | endBlock => exact ⟨hc, Queued.of_dueJobs hc.matched.toIndexed _⟩
  | callBegin =>
    rename_i height s H j rest
    have hbegin := hc.1.callBegin (hc.2.listed j mem_cons_self)
    exact ⟨hbegin, hbegin, hc.2⟩
  | callFail =>
    rename_i height c s H j rest env
    obtain ⟨-, houter, hq⟩ := hc
    have hend := houter.callEnd (hq.listed j mem_cons_self)
    have hrest := hq.deleteJob houter.matched.toIndexed
    simp only [Chronicled, dispatchFailed, refundAndDelete_store]
    exact ⟨hend, hrest⟩
  | callOk =>
    rename_i height s H outer j rest env gasUsed
    obtain ⟨hnow, -, hq⟩ := hc
    have hcache : Queued height (j :: rest) s.store := ⟨hq.nodup, hkeeps⟩
    have hend := hnow.callEnd (hcache.listed j mem_cons_self)
    have hrest := hcache.deleteJob hnow.matched.toIndexed
    simp only [Chronicled, dispatchExecuted, refundAndDelete_store]
    exact ⟨hend, hrest⟩
  | finish => exact hc.1
  | advance => exact hc

theorem Chronicled.orderly (hc : Chronicled c) :
    Orderly c.now.history ∧ Orderly c.committed.history := by
  obtain ⟨_, _, phase⟩ := c
  cases phase with
  | idle => exact ⟨Chronicle.orderly hc, Chronicle.orderly hc⟩
  | dispatching => exact ⟨hc.1.orderly, hc.1.orderly⟩
  | inCall => exact ⟨hc.1.orderly, hc.2.1.orderly⟩

/-! ## Runs -/

/-- In every run whose committed calls leave the block's snapshot in place, and
that schedules nothing after the id counter has wrapped, every id is dispatched
at most once, never after its cancellation, and at the block it was last
scheduled or rescheduled for. -/
theorem dispatchedAsAsked_of_path (k : Keeper) (height : UInt64) (bank : Ledger) (c : Config)
    (h : Path (step k) (fun c l => FreshIds c l ∧ KeepsSnapshot c l) (.start height bank) c) :
    DispatchedAsAsked c.now.history ∧ DispatchedAsAsked c.committed.history := by
  have hstart : Chronicled (.start height bank) := .start
  have hinv : Chronicled c :=
    Path.invariant (fun t l u ht hok hl => Chronicled.step ht hok.1 hok.2 hl) hstart h
  exact ⟨hinv.orderly.1.dispatchedAsAsked, hinv.orderly.2.dispatchedAsAsked⟩

/-! ## A self-rescheduling job -/

namespace SelfReschedule

open Reentrant

/-- A contract schedules a call to itself for block 5; `inCall` says what it does
when it is called; then comes the end of block 6. -/
def labels (inCall : List Label) : List Label :=
  [.op freeEnv (.schedule contract contract [] 5 1 10), .advance 5, .endBlock, .callBegin] ++
    inCall ++ [.callOk freeEnv 0, .finish, .advance 6, .endBlock]

end SelfReschedule

open Reentrant SelfReschedule in
/-- Rescheduling its own job while it is being dispatched leaves a due-block entry
that the deferred deletion does not know: the job is dispatched again. -/
theorem selfReschedule_dispatched_twice : ∃ c, Path (step keeper) FreshIds (.start 4 bank) c ∧
      ¬ DispatchedAsAsked c.committed.history := by
  have hrun : (runLabels (guardedStep (step keeper) FreshIds) (.start 4 bank)
      (labels [.op freeEnv (.reschedule contract 1 6)] ++ [.callBegin])).map
        (fun c => c.committed.history) =
      some [.scheduled 1 5, .dispatched 1 5, .rescheduled 1 6, .dispatched 1 6] := by
    decide +kernel
  obtain ⟨c, hc, hhistory⟩ := Option.map_eq_some_iff.mp hrun
  refine ⟨c, path_of_runLabels hc, ?_⟩
  rintro ⟨honce, -⟩
  have hcount := honce 1
  rw [hhistory] at hcount
  exact absurd hcount (by decide)

open Reentrant SelfReschedule in
/-- The same run with a call that leaves the scheduler alone. -/
theorem dispatchedAsAsked_without_reschedule :
    ∃ c : Config, c.committed.history = [.scheduled 1 5, .dispatched 1 5] ∧
      DispatchedAsAsked c.committed.history := by
  have hrun : (runLabels (guardedStep (step keeper) fun c l => FreshIds c l ∧ KeepsSnapshot c l)
      (.start 4 bank) (labels [])).map (fun c => c.committed.history) =
      some [.scheduled 1 5, .dispatched 1 5] := by
    decide +kernel
  obtain ⟨c, hc, hhistory⟩ := Option.map_eq_some_iff.mp hrun
  exact ⟨c, hhistory, (dispatchedAsAsked_of_path keeper 4 bank c (path_of_runLabels hc)).2⟩

end HyperPax.Scheduler
