/-
  Scheduler/Indexes.lean --- the indexes of the scheduler agree, key by key.

  A pending job is stored three times: by id, by due block, and as a marker under its
  creator.  While dispatched calls leave the scheduler alone, every operation writes and
  deletes the three together, so each determines the others (`Filed`).  The markers of a
  creator share a beginning and end in the id, big-endian, so that the iterator lists
  ids in ascending order; the number of markers is what `Schedule` counts.

  The counter of ids is a 64-bit word.  Once it has wrapped around, the last id handed
  out is above it, and ids are handed out again; up to there it is above every stored
  id.
-/
import HyperPax.Scheduler.Dispatch

set_option autoImplicit false

namespace HyperPax.Scheduler

open Lib KVStore List Function

/-! ## The creator index -/

/-- `0x02`: all markers. -/
def creatorIndexPrefix : Key := [0x02]

/-- The creator of the job with an id. -/
def creatorOf (store : Store) (id : UInt64) : Option (List UInt8) :=
  (getJob store id).map Job.creator

section

variable (store : Store) (j : Job)

theorem creatorOf_setJob :
    creatorOf (setJob store j) = update (creatorOf store) j.id (some j.creator) :=
  owners_update (getJob_setJob j) Job.creator

theorem creatorOf_deleteJob : creatorOf (deleteJob store j) = update (creatorOf store) j.id none :=
  owners_update (getJob_deleteJob j) Job.creator

@[simp] theorem getParams_setJob : getParams (setJob store j) = getParams store := by
  simp [getParams, setJob, get_insert]

@[simp] theorem getParams_deleteJob : getParams (deleteJob store j) = getParams store := by
  simp [getParams, deleteJob, get_erase]

@[simp] theorem getParams_bumpNextJobID : getParams (bumpNextJobID store) = getParams store := by
  rw [getParams, bumpNextJobID, get_insert_of_ne _ _ (by decide)]
  rfl

end

theorem creatorIndexPrefix_not (h id : UInt64) :
    ¬ creatorIndexPrefix <+: jobByIDKey id ∧ ¬ creatorIndexPrefix <+: jobByDueBlockKey h id := by
  simp [creatorIndexPrefix, jobByIDKey, jobByDueBlockKey]

variable {store : Store} {j : Job} {k : Key} {v : Value}

/-- The three indexes hold the same jobs: every record has its due-block copy and its marker,
and every due-block entry and every marker has its record.  Creators have twenty bytes. -/
structure Filed (store : Store) : Prop extends Matched store where
  marked : ∀ id j, getJob store id = some j →
    j.creator.length = 20 ∧ store[creatorJobKey j.creator id]? = some .marker
  by_creator : ∀ k v, store[k]? = some v → creatorIndexPrefix <+: k →
    v = .marker ∧ ∃ j, getJob store j.id = some j ∧ k = creatorJobKey j.creator j.id

namespace Filed

variable {store : Store}

theorem empty : Filed ∅ where
  toMatched := .empty
  marked id j hj := by simp [getJob] at hj
  by_creator k v h := by simp at h

theorem creators (hs : Filed store) : OwnerIndex 20 0x02 .marker (creatorOf store) store where
  owner_length id a ha := by
    obtain ⟨j, hj, rfl⟩ := Option.map_eq_some_iff.mp ha
    exact (hs.marked id j hj).1
  marked id a ha := by
    obtain ⟨j, hj, rfl⟩ := Option.map_eq_some_iff.mp ha
    exact (hs.marked id j hj).2
  entry k v hget hpre := by
    obtain ⟨hv, j, hj, rfl⟩ := hs.by_creator k v hget hpre
    exact ⟨hv, j.id, j.creator, congrArg (Option.map Job.creator) hj, rfl⟩

theorem of_creators (hm : Matched store)
    (h : OwnerIndex 20 0x02 .marker (creatorOf store) store) : Filed store where
  toMatched := hm
  marked id j hj :=
    have ha : creatorOf store id = some j.creator := congrArg (Option.map Job.creator) hj
    ⟨h.owner_length id _ ha, h.marked id _ ha⟩
  by_creator k v hget hpre := by
    obtain ⟨hv, id, a, ha, rfl⟩ := h.entry k v hget hpre
    obtain ⟨j, hj, rfl⟩ := Option.map_eq_some_iff.mp ha
    obtain ⟨rfl, -⟩ := hm.due_of_getJob hj
    exact ⟨hv, j, hj, rfl⟩

theorem insert_of_not_index (hs : Filed store) {k : Key} (v : Value)
    (hid : ¬ jobByIDKeyPrefix <+: k) (hdue : ¬ dueIndexPrefix <+: k)
    (hcreator : ¬ creatorIndexPrefix <+: k) : Filed (store.insert k v) := by
  have hsame : creatorOf (store.insert k v) = creatorOf store := by
    funext id
    have hk : k ≠ jobByIDKey id := fun he => hid (he ▸ ⟨_, rfl⟩)
    rw [creatorOf, getJob, get_insert_of_ne _ _ hk]
    rfl
  refine of_creators (hs.toMatched.insert_of_not_index v hid hdue) ?_
  rw [hsame]
  exact hs.creators.insert_other v hcreator

theorem setJob (hs : Filed store) {j : Job} (hnew : getJob store j.id = none)
    (hnone : ∀ h, store[jobByDueBlockKey h j.id]? = none) (hlen : j.creator.length = 20) :
    Filed (setJob store j) := by
  obtain ⟨hid, hdue⟩ := creatorIndexPrefix_not j.executeAtBlock j.id
  refine of_creators (hs.toMatched.setJob hnone) ?_
  rw [creatorOf_setJob]
  refine ((hs.creators.insert_other _ hid).insert_other _ hdue).insert j.id hlen fun b hb => ?_
  rw [creatorOf, hnew] at hb
  cases hb

theorem deleteJob (hs : Filed store) {j : Job} (hj : getJob store j.id = some j) :
    Filed (deleteJob store j) := by
  obtain ⟨hid, hdue⟩ := creatorIndexPrefix_not j.executeAtBlock j.id
  refine of_creators (hs.toMatched.deleteJob hj) ?_
  rw [creatorOf_deleteJob]
  exact ((hs.creators.erase_other hid).erase_other hdue).erase j.id
    (congrArg (Option.map Job.creator) hj)

end Filed

/-! ## Counting a creator's markers -/

/-- The number of markers of a creator. -/
def markerCount (store : Store) (c : Address) : Nat :=
  (store.scan (creatorJobsPrefix c.bytes)).length

theorem creatorJobsPrefix_iff {c : Address} {creator : List UInt8} (hlen : creator.length = 20)
    (id : UInt64) : creatorJobsPrefix c.bytes <+: creatorJobKey creator id ↔ creator = c.bytes :=
  ownerPrefix_isPrefix_iff (by rw [c.length_bytes, hlen])

section

variable (store : Store) (c : Address)

theorem creatorJobsPrefix_not {k : Key} (hk : ¬ creatorIndexPrefix <+: k) :
    ¬ creatorJobsPrefix c.bytes <+: k :=
  fun h => hk (List.IsPrefix.trans ⟨c.bytes, rfl⟩ h)

theorem markerCount_insert_of_not {k : Key} (v : Value) (hk : ¬ creatorIndexPrefix <+: k) :
    markerCount (store.insert k v) c = markerCount store c :=
  length_scan_insert_of_not _ _ (creatorJobsPrefix_not c hk)

theorem markerCount_setJob_le {j : Job} (hlen : j.creator.length = 20) :
    markerCount (setJob store j) c ≤
      markerCount store c + if j.creator = c.bytes then 1 else 0 := by
  obtain ⟨hid, hdue⟩ := creatorIndexPrefix_not j.executeAtBlock j.id
  have hmarker := length_scan_insert_le ((store.insert (jobByIDKey j.id) (.job j)).insert
    (jobByDueBlockKey j.executeAtBlock j.id) (.job j)) (creatorJobsPrefix c.bytes)
    (creatorJobKey j.creator j.id) .marker
  rw [length_scan_insert_of_not _ _ (creatorJobsPrefix_not c hdue),
    length_scan_insert_of_not _ _ (creatorJobsPrefix_not c hid)] at hmarker
  simp only [creatorJobsPrefix_iff hlen] at hmarker
  exact hmarker

theorem markerCount_deleteJob {j : Job} (hlen : j.creator.length = 20)
    (hmarker : store[creatorJobKey j.creator j.id]? = some .marker) :
    markerCount (deleteJob store j) c + (if j.creator = c.bytes then 1 else 0) =
      markerCount store c := by
  obtain ⟨hid, hdue⟩ := creatorIndexPrefix_not j.executeAtBlock j.id
  have hget : ((store.erase (jobByIDKey j.id)).erase
      (jobByDueBlockKey j.executeAtBlock j.id))[creatorJobKey j.creator j.id]? = some .marker := by
    simp [get_erase, hmarker]
  have hcount := length_scan_erase hget (creatorJobsPrefix c.bytes)
  rw [length_scan_erase_of_not _ (creatorJobsPrefix_not c hdue),
    length_scan_erase_of_not _ (creatorJobsPrefix_not c hid)] at hcount
  simp only [creatorJobsPrefix_iff hlen] at hcount
  exact hcount

end

/-! ## Stores of undisturbed runs -/

theorem getNextJobID_le_nextJobID (store : Store) : getNextJobID store ≤ nextJobID store := by
  unfold getNextJobID nextJobID nextId
  cases storedCounter store with
  | none => exact UInt64.le_refl _
  | some =>
    dsimp only [Option.getD_some]
    split
    · rename_i hn
      rw [hn]
      decide
    · exact UInt64.le_refl _

/-- What holds of the store while the calls leave the scheduler alone and the parameters stay
`p`. -/
structure Sound (p : Params) (store : Store) : Prop where
  filed : Filed store
  params : getParams store = p
  below : ∀ id j, getJob store id = some j → id < getNextJobID store
  bounded : ∀ c, markerCount store c ≤ p.maxJobsPerCreator.toNat

namespace Sound

variable {p : Params} {store : Store}

section

variable (hs : Sound p store)

include hs

theorem next_unused : getJob store (nextJobID store) = none ∧
    ∀ h, store[jobByDueBlockKey h (nextJobID store)]? = none := by
  have hrecord : getJob store (nextJobID store) = none := by
    cases hj : getJob store (nextJobID store) with
    | none => rfl
    | some =>
      have hlt := UInt64.lt_of_lt_of_le (hs.below _ _ hj) (getNextJobID_le_nextJobID store)
      exact absurd hlt (UInt64.lt_irrefl _)
  refine ⟨hrecord, ?_⟩
  intro h
  cases hentry : store[jobByDueBlockKey h (nextJobID store)]? with
  | none => rfl
  | some =>
    obtain ⟨_, rfl, -, -⟩ := hs.filed.due_entry hentry
    rw [hs.filed.record_of_due _ _ _ hentry] at hrecord
    cases hrecord

theorem schedule (hlast : nextJobID store + 1 ≠ 0) {creator : Address}
    (hcount : countJobsByCreator store creator.bytes < p.maxJobsPerCreator) (target : Address)
    (callData : List UInt8) (block gasLimit : UInt64) (deposit : Int) :
    Sound p (setJob (bumpNextJobID store)
      (newJob store creator target callData block gasLimit deposit)) := by
  obtain ⟨hnew, hnone⟩ := hs.next_unused
  have hsucc := lt_add_one_of_ne_zero hlast
  have hlen : creator.bytes.length = 20 := creator.length_bytes
  have hbump : Filed (bumpNextJobID store) :=
    hs.filed.insert_of_not_index _ (by decide) (by decide) (by decide)
  have hnext : getNextJobID (setJob (bumpNextJobID store)
      (newJob store creator target callData block gasLimit deposit)) = nextJobID store + 1 := by
    rw [getNextJobID, storedCounter_setJob, storedCounter_bumpNextJobID, Option.getD_some]
  refine ⟨hbump.setJob ?_ ?_ hlen, ?_, ?_, ?_⟩
  · rw [getJob, get_id_bumpNextJobID]
    exact hnew
  · intro h
    rw [get_due_bumpNextJobID]
    exact hnone h
  · rw [getParams_setJob, getParams_bumpNextJobID]
    exact hs.params
  · intro id j hj
    rw [hnext]
    rw [getJob_setJob] at hj
    split at hj
    · rename_i hid
      rw [← hid]
      exact hsucc
    · rw [getJob, get_id_bumpNextJobID] at hj
      have hlt := UInt64.lt_of_lt_of_le (hs.below id j hj) (getNextJobID_le_nextJobID store)
      exact UInt64.lt_trans hlt hsucc
  · intro c
    have hadd := markerCount_setJob_le (bumpNextJobID store) c
      (show (newJob store creator target callData block gasLimit deposit).creator.length = 20
        from hlen)
    rw [show markerCount (bumpNextJobID store) c = markerCount store c from
      markerCount_insert_of_not _ c _ (by decide)] at hadd
    split at hadd
    · rename_i hcreator
      obtain rfl : creator = c := Address.ext hcreator
      exact hadd.trans (succ_le_of_ofNat_lt (hs.bounded creator) hcount)
    · exact hadd.trans (hs.bounded c)

theorem deleteJob {j : Job} (hj : getJob store j.id = some j) : Sound p (deleteJob store j) := by
  obtain ⟨hlen, hmarker⟩ := hs.filed.marked _ _ hj
  have hnext : getNextJobID (Scheduler.deleteJob store j) = getNextJobID store := by
    rw [getNextJobID, storedCounter_deleteJob]
    rfl
  refine ⟨hs.filed.deleteJob hj, ?_, ?_, ?_⟩
  · rw [getParams_deleteJob]
    exact hs.params
  · intro id j' hj'
    rw [getJob_deleteJob] at hj'
    split at hj'
    · cases hj'
    · rw [hnext]
      exact hs.below id j' hj'
  · intro c
    have hcount := markerCount_deleteJob store c hlen hmarker
    exact (Nat.le.intro hcount).trans (hs.bounded c)

theorem reschedule {j : Job} (hj : getJob store j.id = some j) (block : UInt64) :
    Sound p (setJob (Scheduler.deleteJob store j) { j with executeAtBlock := block }) := by
  obtain ⟨hlen, hmarker⟩ := hs.filed.marked _ _ hj
  have hdeleted := hs.deleteJob hj
  have hnew : getJob (Scheduler.deleteJob store j) j.id = none := by
    rw [getJob_deleteJob, if_pos rfl]
  have hnext : getNextJobID (setJob (Scheduler.deleteJob store j)
      { j with executeAtBlock := block }) = getNextJobID store := by
    rw [getNextJobID, storedCounter_setJob, storedCounter_deleteJob]
    rfl
  refine ⟨hdeleted.filed.setJob hnew (hs.filed.due_deleteJob_self hj) hlen, ?_, ?_, ?_⟩
  · rw [getParams_setJob]
    exact hdeleted.params
  · intro id j' hj'
    rw [hnext]
    rw [getJob_setJob] at hj'
    split at hj'
    · rename_i hid
      rw [← hid]
      exact hs.below _ _ hj
    · rename_i hid
      rw [getJob_deleteJob, if_neg hid] at hj'
      exact hs.below id j' hj'
  · -- the marker that goes comes back
    intro c
    have hadd := markerCount_setJob_le (Scheduler.deleteJob store j) c
      (show ({ j with executeAtBlock := block } : Job).creator.length = 20 from hlen)
    have hcount := markerCount_deleteJob store c hlen hmarker
    exact (hadd.trans hcount.le).trans (hs.bounded c)

end

theorem perform {k : Keeper} {c : Context} (hs : Sound p c.state.store) (env : Env)
    (height : UInt64) (op : Op) (hlast : op.payer?.isSome → nextJobID c.state.store + 1 ≠ 0) :
    Sound p (c.perform k env height op).state.store := by
  cases op with
  | schedule caller target callData block gasLimit deposit =>
    rcases execOp_schedule_cases k env height caller target callData block gasLimit deposit
      c.state with ⟨e, he⟩ | ⟨-, -, ⟨e, he⟩ | ⟨hallowed, hok⟩⟩
    · rw [perform_of_error he]
      exact hs
    · rw [perform_of_error he]
      exact hs
    rw [perform_of_ok hok]
    have hcount := hallowed.count
    rw [hs.params] at hcount
    exact hs.schedule (hlast rfl) hcount target callData block gasLimit deposit
  | cancel caller jobID =>
    rcases execOp_cancel_cases k env height caller jobID c.state with ⟨e, he⟩ | ⟨j, hj, -, -, hok⟩
    · rw [perform_of_error he]
      exact hs
    rw [perform_of_ok hok]
    obtain ⟨rfl, -⟩ := hs.filed.due_of_getJob hj
    exact hs.deleteJob hj
  | reschedule caller jobID block =>
    rcases execOp_reschedule_cases k env height caller jobID block c.state with
      ⟨_, he⟩ | ⟨_, hj, -, -, hok⟩
    · rw [perform_of_error he]
      exact hs
    rw [perform_of_ok hok]
    obtain ⟨rfl, -⟩ := hs.filed.due_of_getJob hj
    exact hs.reschedule hj block

theorem genesis {n : UInt64} (h : initGenesis ⟨p, n, []⟩ = .ok store) : Sound p store := by
  unfold initGenesis setParams at h
  split at h
  · obtain rfl : setNextJobID ((∅ : Store).insert paramsKey (.params p)) n = store :=
      Except.ok.inj h
    refine ⟨?_, ?_, ?_, ?_⟩
    · refine (Filed.empty.insert_of_not_index _ ?_ ?_ ?_).insert_of_not_index _ ?_ ?_ ?_
      all_goals decide
    · rw [getParams, setNextJobID, get_insert_of_ne _ _ (by decide), get_insert,
        if_pos rfl]
    · intro _ _ hj
      simp [getJob, setNextJobID] at hj
    intro c
    rw [setNextJobID, markerCount_insert_of_not _ c _ (by decide),
      markerCount_insert_of_not _ c _ (by decide), markerCount, scan_empty]
    exact Nat.zero_le _
  · cases h

end Sound

/-! ## What the iterators show -/

/-- The entries of an index whose key ends in the id. -/
def entriesWithId (store : Store) (pre : Key) (id : UInt64) : List (Key × Value) :=
  (store.scan pre).filter fun kv => putUint64 id <:+ kv.1

theorem mem_entriesWithId {pre : Key} {id : UInt64} :
    (k, v) ∈ entriesWithId store pre id ↔ store[k]? = some v ∧ pre <+: k ∧ putUint64 id <:+ k := by
  rw [entriesWithId, mem_filter, mem_scan_iff, decide_eq_true_eq, and_assoc]

theorem entriesWithId_eq_singleton {pre : Key} {id : UInt64} (hget : store[k]? = some v)
    (hpre : pre <+: k) (hid : putUint64 id <:+ k)
    (honly : ∀ k' v', store[k']? = some v' → pre <+: k' → putUint64 id <:+ k' → k' = k) :
    entriesWithId store pre id = [(k, v)] := by
  have hnodup : (entriesWithId store pre id).Nodup :=
    (store.nodup_toList.sublist filter_sublist).sublist filter_sublist
  refine perm_singleton.mp ((perm_ext_iff_of_nodup hnodup (by simp)).mpr ?_)
  rintro ⟨k', v'⟩
  rw [mem_entriesWithId, mem_singleton]
  constructor
  · rintro ⟨hget', hpre', hid'⟩
    obtain rfl := honly k' v' hget' hpre' hid'
    rw [hget] at hget'
    rw [Option.some.inj hget']
  · rintro ⟨rfl, rfl⟩
    exact ⟨hget, hpre, hid⟩

namespace Filed

variable {store : Store}

theorem getJob_iff (hs : Filed store) (id : UInt64) (j : Job) : getJob store id = some j ↔
      entriesWithId store dueIndexPrefix id = [(jobByDueBlockKey j.executeAtBlock id, .job j)] ∧
      entriesWithId store creatorIndexPrefix id = [(creatorJobKey j.creator id, .marker)] := by
  constructor
  · intro hj
    obtain ⟨rfl, hdue⟩ := hs.due_of_getJob hj
    refine ⟨entriesWithId_eq_singleton hdue ⟨_, rfl⟩ ⟨0x01 :: putUint64 j.executeAtBlock, rfl⟩ ?_,
      hs.creators.entriesOf_some (congrArg (Option.map Job.creator) hj)⟩
    intro k v hget hpre hid
    obtain ⟨j', rfl, rfl⟩ := hs.by_due k v hget hpre
    have hsame : j.id = j'.id := putUint64_isSuffix_iff.mp hid
    have hj' := hs.record_of_due _ _ _ hget
    rw [← hsame, hj] at hj'
    rw [Option.some.inj hj']
  · rintro ⟨hdue, -⟩
    have hmem : (jobByDueBlockKey j.executeAtBlock id, .job j) ∈
        entriesWithId store dueIndexPrefix id := by
      rw [hdue]
      exact mem_singleton_self _
    exact hs.record_of_due _ _ _ (mem_entriesWithId.mp hmem).1

theorem entriesWithId_of_none (hs : Filed store) {id : UInt64} (h : getJob store id = none) :
    entriesWithId store dueIndexPrefix id = [] ∧
      entriesWithId store creatorIndexPrefix id = [] := by
  refine ⟨eq_nil_iff_forall_not_mem.mpr ?_,
    hs.creators.entriesOf_none (congrArg (Option.map Job.creator) h)⟩
  rintro ⟨k, v⟩ hmem
  obtain ⟨hget, hpre, hid⟩ := mem_entriesWithId.mp hmem
  obtain ⟨j, rfl, rfl⟩ := hs.by_due k v hget hpre
  obtain rfl : id = j.id := putUint64_isSuffix_iff.mp hid
  rw [hs.record_of_due _ _ _ hget] at h
  cases h

end Filed

/-! ## Agreement -/

/-- The indexes of a store agree, over its raw keys, and its jobs stay within the limits. -/
structure IndexesAgree (p : Params) (store : Store) : Prop where
  own_id : ∀ id j, getJob store id = some j → j.id = id
  stored_iff : ∀ id j, getJob store id = some j ↔
    entriesWithId store dueIndexPrefix id = [(jobByDueBlockKey j.executeAtBlock id, .job j)] ∧
    entriesWithId store creatorIndexPrefix id = [(creatorJobKey j.creator id, .marker)]
  absent : ∀ id, getJob store id = none →
    entriesWithId store dueIndexPrefix id = [] ∧ entriesWithId store creatorIndexPrefix id = []
  pending : ∀ (c : Address) id, id ∈ pendingJobIDsByCreator store c.bytes ↔
    ∃ j, getJob store id = some j ∧ j.creator = c.bytes
  ascending : ∀ c : Address, (pendingJobIDsByCreator store c.bytes).Pairwise (· < ·)
  limited : ∀ c : Address,
    (pendingJobIDsByCreator store c.bytes).length ≤ (getParams store).maxJobsPerCreator.toNat
  params : getParams store = p
  below : ∀ id j, getJob store id = some j → id < getNextJobID store

variable {p : Params}

theorem Sound.indexesAgree (hs : Sound p store) : IndexesAgree p store where
  own_id _ _ hj := (hs.filed.due_of_getJob hj).1
  stored_iff := hs.filed.getJob_iff
  absent _ h := hs.filed.entriesWithId_of_none h
  pending c id := (hs.filed.creators.mem_idsAfter c.length_bytes id).trans Option.map_eq_some_iff
  ascending c := hs.filed.creators.pairwise_idsAfter c.length_bytes
  limited c := by
    rw [hs.params]
    exact (length_filterMap_le _ _).trans (hs.bounded c)
  params := hs.params
  below := hs.below

/-! ## Configurations -/

/-- The store is sound, and the jobs that `EndBlocker` has still to dispatch are listed.  A
running call has changed nothing. -/
def Settled (p : Params) (c : Config) : Prop :=
  Sound p c.now.state.store ∧
    match c.phase with
    | .idle => True
    | .dispatching rest => Queued c.height rest c.now.state.store
    | .inCall j rest outer =>
      outer.state.store = c.now.state.store ∧ Queued c.height (j :: rest) c.now.state.store

/-- The parameters stay, and dispatched calls leave the scheduler alone. -/
def LeftAlone : Config → Label → Prop
  | _, .setParams _ => False
  | ⟨_, _, .inCall _ _ _⟩, .op _ _ => False
  | _, _ => True

instance (c : Config) (l : Label) : Decidable (LeftAlone c l) :=
  match l with
  | .setParams _ => .isFalse id
  | .op _ _ =>
    match c with
    | ⟨_, _, .inCall _ _ _⟩ => .isFalse id
    | ⟨_, _, .idle⟩ | ⟨_, _, .dispatching _⟩ => .isTrue trivial
  | .endBlock | .callBegin | .callFail _ | .callOk _ _ | .finish | .advance _ => .isTrue trivial

/-- The last 64-bit id is not handed out. -/
def KeepsLastId : Config → Label → Prop
  | c, .op _ o => o.payer?.isSome → nextJobID c.now.state.store + 1 ≠ 0
  | _, _ => True

instance (c : Config) (l : Label) : Decidable (KeepsLastId c l) :=
  match l with
  | .op .. => inferInstanceAs (Decidable (_ → _))
  | .setParams _ | .endBlock | .callBegin | .callFail _ | .callOk _ _ | .finish | .advance _ =>
    .isTrue trivial

theorem Sound.getJob_of_queued (hs : Sound p store) {height : UInt64} {rest : List Job}
    (hq : Queued height (j :: rest) store) : getJob store j.id = some j := by
  have hlisted := hs.filed.mem_jobsDueAt.mp (hq.listed j mem_cons_self)
  exact hs.filed.record_of_due _ _ _ hlisted.2

theorem Settled.step {k : Keeper} {c c' : Config} {l : Label} (hc : Settled p c)
    (halone : LeftAlone c l) (hlast : KeepsLastId c l) (h : step k c l = some c') :
    Settled p c' := by
  cases transition_of_step h with
  | setParams | callOp => cases halone
  | op => exact ⟨hc.1.perform _ _ _ hlast, trivial⟩
  | endBlock => exact ⟨hc.1, Queued.of_dueJobs hc.1.filed.toIndexed _⟩
  | callBegin => exact ⟨hc.1, rfl, hc.2⟩
  | callFail =>
    rename_i height c s H j rest env
    obtain ⟨hnow, houter, hq⟩ := hc
    have houter : s.store = c.state.store := houter
    have hdeleted := hnow.deleteJob (hnow.getJob_of_queued hq)
    have hrest := hq.deleteJob hnow.filed.toIndexed
    simp only [Settled, dispatchFailed, refundAndDelete_store, houter]
    exact ⟨hdeleted, hrest⟩
  | callOk =>
    obtain ⟨hnow, -, hq⟩ := hc
    have hdeleted := hnow.deleteJob (hnow.getJob_of_queued hq)
    have hrest := hq.deleteJob hnow.filed.toIndexed
    simp only [Settled, dispatchExecuted, refundAndDelete_store]
    exact ⟨hdeleted, hrest⟩
  | finish | advance => exact ⟨hc.1, trivial⟩

/-! ## Runs -/

/-- From a genesis without jobs, in every run in which dispatched calls leave the scheduler
alone, the parameters stay and the last 64-bit id is not handed out, the indexes agree. -/
theorem indexesAgree_of_path (k : Keeper) (height : UInt64) (bank : Ledger) (p : Params)
    (n : UInt64) (store : Store) (hgenesis : initGenesis ⟨p, n, []⟩ = .ok store) (c : Config)
    (h : Path (step k) (fun c l => LeftAlone c l ∧ KeepsLastId c l)
      ⟨height, ⟨⟨store, bank⟩, []⟩, .idle⟩ c) :
    IndexesAgree p c.now.state.store ∧ IndexesAgree p c.committed.state.store := by
  have hstart : Settled p ⟨height, ⟨⟨store, bank⟩, []⟩, .idle⟩ :=
    ⟨.genesis hgenesis, trivial⟩
  have hinv : Settled p c :=
    Path.invariant (fun t l u ht hok hl => ht.step hok.1 hok.2 hl) hstart h
  have hnow := hinv.1.indexesAgree
  refine ⟨hnow, ?_⟩
  obtain ⟨_, _, phase⟩ := c
  cases phase with
  | idle | dispatching => exact hnow
  | inCall _ _ outer =>
    obtain ⟨-, houter, -⟩ := hinv
    show IndexesAgree p outer.state.store
    rw [houter]
    exact hnow

namespace LastId

open Reentrant

/-- The store of a genesis without jobs. -/
def genesisStore (n : UInt64) : Store :=
  setNextJobID ((∅ : Store).insert paramsKey (.params defaultParams)) n

theorem initGenesis_eq (n : UInt64) :
    initGenesis ⟨defaultParams, n, []⟩ = .ok (genesisStore n) := rfl

def start (n : UInt64) : Config := ⟨4, ⟨⟨genesisStore n, bank⟩, []⟩, .idle⟩

/-- One job for block 5, one for block 6, which is moved to block 7, and one that is
cancelled; then the first is dispatched. -/
def labels : List Label :=
  [.op freeEnv (.schedule contract contract [] 5 1 10),
    .op freeEnv (.schedule contract contract [] 6 1 10),
    .op freeEnv (.schedule contract contract [] 6 1 10), .op freeEnv (.reschedule contract 2 7),
    .op freeEnv (.cancel contract 3), .advance 5, .endBlock, .callBegin, .callOk freeEnv 0,
    .finish]

end LastId

open Reentrant LastId in
/-- A genesis may start the counter at the last id.  The job scheduled first then has that id,
and the counter is zero. -/
theorem lastId_not_below :
    ∃ store c, initGenesis ⟨defaultParams, 18446744073709551615, []⟩ = .ok store ∧
      Path (step keeper) LeftAlone ⟨4, ⟨⟨store, bank⟩, []⟩, .idle⟩ c ∧
      ¬ IndexesAgree defaultParams c.now.state.store := by
  obtain ⟨c, hpath, hstored, hnext⟩ :
      ∃ c, Path (step keeper) LeftAlone (start 18446744073709551615) c ∧
        (getJob c.now.state.store 18446744073709551615).isSome ∧
        getNextJobID c.now.state.store = 0 :=
    exists_path (start 18446744073709551615)
      [.op freeEnv (.schedule contract contract [] 5 1 10)] (by decide +kernel)
  refine ⟨_, c, initGenesis_eq _, hpath, ?_⟩
  intro hagree
  obtain ⟨_, hj⟩ := Option.isSome_iff_exists.mp hstored
  have hlt := hagree.below _ _ hj
  rw [hnext] at hlt
  exact absurd hlt (by decide)

open Reentrant LastId in
/-- After the end of block 5 the moved job is left. -/
theorem indexesAgree_after_dispatch :
    ∃ c, Path (step keeper) (fun c l => LeftAlone c l ∧ KeepsLastId c l) (start 1) c ∧
      pendingJobIDsByCreator c.now.state.store contract.bytes = [2] ∧
      IndexesAgree defaultParams c.now.state.store := by
  obtain ⟨c, hpath, hpending⟩ :
      ∃ c, Path (step keeper) (fun c l => LeftAlone c l ∧ KeepsLastId c l) (start 1) c ∧
        pendingJobIDsByCreator c.now.state.store contract.bytes = [2] :=
    exists_path (start 1) labels (by decide +kernel)
  exact ⟨c, hpath, hpending,
    (indexesAgree_of_path keeper 4 bank defaultParams 1 _ (initGenesis_eq 1) c hpath).1⟩

end HyperPax.Scheduler
