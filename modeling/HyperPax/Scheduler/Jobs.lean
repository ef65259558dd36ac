/-
  Scheduler/Jobs.lean --- the scheduler's store: job records, indexes, counter.

  Source: x/scheduler/keeper/{jobs,params}.go.

  One key-value store holds three views of every pending job (by id, by due block,
  by creator), the parameters and the id counter.  The due-block entry is a COPY of
  the record, so the two copies can come apart; what ties them together is the
  predicate `Indexed` below.
-/
import HyperPax.Lib.Allocator
import HyperPax.Scheduler.Types

set_option autoImplicit false

namespace HyperPax.Scheduler

open Lib KVStore List

/-! ## Contents -/

/-- What the store holds: the JSON of a job, the creator-index marker byte, the
JSON of the parameters, or the eight bytes of the counter. -/
inductive Value where
  | job (j : Job)
  | marker
  | params (p : Params)
  | counter (n : UInt64)
deriving DecidableEq

abbrev Store : Type := KVStore Value

/-- `json.Unmarshal` into a `Job`. -/
def Value.job? : Value → Option Job
  | .job j => some j
  | _ => none

/-- The eight bytes of a counter, read back. -/
def Value.counter? : Value → Option UInt64
  | .counter n => some n
  | _ => none

@[simp] theorem job?_job (j : Job) : (Value.job j).job? = some j := rfl

variable {j : Job} {store : Store}

@[simp] theorem job?_eq_some {v : Value} : v.job? = some j ↔ v = .job j := by
  cases v <;> simp [Value.job?]

/-! ## Parameters -/

/-- `GetParams`. -/
def getParams (store : Store) : Params :=
  match store[paramsKey]? with
  | some (.params p) => p
  | _ => defaultParams

/-- `SetParams`. -/
def setParams (store : Store) (p : Params) : Except String Store :=
  match p.validate with
  | .ok () => .ok (store.insert paramsKey (.params p))
  | .error e => .error e

/-! ## Job records -/

/-- `SetJob`: the record by id, its copy by due block, and the creator marker. -/
def setJob (store : Store) (j : Job) : Store :=
  ((store.insert (jobByIDKey j.id) (.job j)).insert
    (jobByDueBlockKey j.executeAtBlock j.id) (.job j)).insert
    (creatorJobKey j.creator j.id) .marker

/-- `GetJob`. -/
def getJob (store : Store) (jobID : UInt64) : Option Job :=
  store[jobByIDKey jobID]?.bind Value.job?

/-- `DeleteJob`: the three keys are computed from the record it is given. -/
def deleteJob (store : Store) (j : Job) : Store :=
  ((store.erase (jobByIDKey j.id)).erase (jobByDueBlockKey j.executeAtBlock j.id)).erase
    (creatorJobKey j.creator j.id)

/-- `IterateJobsDueAt`, collecting what the callback sees. -/
def jobsDueAt (store : Store) (height : UInt64) : List Job :=
  (store.scan (jobByDueBlockPrefix height)).filterMap fun kv => kv.2.job?

/-- `PendingJobIDsByCreator`: the last eight bytes of each membership key. -/
def pendingJobIDsByCreator (store : Store) (creator : List UInt8) : List UInt64 :=
  let prefixLen := 1 + creator.length
  (store.scan (creatorJobsPrefix creator)).filterMap fun kv =>
    if kv.1.length < prefixLen + 8 then none
    else some (getUint64 ((kv.1.drop prefixLen).take 8))

/-- `CountJobsByCreator`: a 32-bit count. -/
def countJobsByCreator (store : Store) (creator : List UInt8) : UInt32 :=
  .ofNat (store.scan (creatorJobsPrefix creator)).length

/-- `GetAllJobs`. -/
def getAllJobs (store : Store) : List Job :=
  (store.scan jobByIDKeyPrefix).filterMap fun kv => kv.2.job?

/-! ## Id allocation -/

/-- The stored counter. -/
def storedCounter (store : Store) : Option UInt64 :=
  store[nextJobIDKey]?.bind Value.counter?

/-- The id that `NextJobID` hands out. -/
def nextJobID (store : Store) : UInt64 := nextId (storedCounter store)

/-- What `NextJobID` persists: the successor, modulo `2^64`. -/
def bumpNextJobID (store : Store) : Store :=
  store.insert nextJobIDKey (.counter (nextJobID store + 1))

/-- `GetNextJobID`: the counter as it is stored. -/
def getNextJobID (store : Store) : UInt64 := (storedCounter store).getD 1

/-- `SetNextJobID`. -/
def setNextJobID (store : Store) (next : UInt64) : Store :=
  store.insert nextJobIDKey (.counter next)

/-! ## Genesis -/

/-- `types.GenesisState`. -/
structure GenesisState where
  params : Params
  nextJobID : UInt64
  jobs : List Job

/-- `InitGenesis` into an empty store; it panics on parameters that do not validate. -/
def initGenesis (gs : GenesisState) : Except String Store := do
  let store ← setParams ∅ gs.params
  return gs.jobs.foldl setJob (setNextJobID store gs.nextJobID)

/-! ## Deposits -/

/-- `parseDeposit`. -/
def parseDeposit (s : String) : Int := parseNonneg s

theorem parseDeposit_nonneg (s : String) : 0 ≤ parseDeposit s := parseNonneg_nonneg s

@[simp] theorem parseDeposit_formatInt {d : Int} (h : 0 ≤ d) : parseDeposit (formatInt d) = d :=
  parseNonneg_formatInt h

/-- The recorded deposit of a job, as a number of coins. -/
def Job.depositCoins (j : Job) : Nat := (parseDeposit j.deposit).toNat

/-! ## Reading after writing -/

section

variable (store : Store) (j : Job) (h id : UInt64)

theorem get_due_setJob : (setJob store j)[jobByDueBlockKey h id]? =
      if j.executeAtBlock = h ∧ j.id = id then some (.job j)
      else store[jobByDueBlockKey h id]? := by
  simp [setJob, get_insert]

theorem get_id_setJob : (setJob store j)[jobByIDKey id]? =
      if j.id = id then some (.job j) else store[jobByIDKey id]? := by
  simp [setJob, get_insert]

theorem get_due_deleteJob : (deleteJob store j)[jobByDueBlockKey h id]? =
      if j.executeAtBlock = h ∧ j.id = id then none else store[jobByDueBlockKey h id]? := by
  simp [deleteJob, get_erase]

theorem get_id_deleteJob : (deleteJob store j)[jobByIDKey id]? =
      if j.id = id then none else store[jobByIDKey id]? := by
  simp [deleteJob, get_erase]

@[simp] theorem get_due_bumpNextJobID :
    (bumpNextJobID store)[jobByDueBlockKey h id]? = store[jobByDueBlockKey h id]? := by
  simp [bumpNextJobID, get_insert]

@[simp] theorem get_id_bumpNextJobID :
    (bumpNextJobID store)[jobByIDKey id]? = store[jobByIDKey id]? := by
  simp [bumpNextJobID, get_insert]

@[simp] theorem storedCounter_setJob : storedCounter (setJob store j) = storedCounter store := by
  simp [storedCounter, setJob, get_insert]

@[simp] theorem storedCounter_deleteJob :
    storedCounter (deleteJob store j) = storedCounter store := by
  simp [storedCounter, deleteJob, get_erase]

theorem storedCounter_bumpNextJobID :
    storedCounter (bumpNextJobID store) = some (nextJobID store + 1) := by
  rw [storedCounter, bumpNextJobID, get_insert, if_pos rfl]
  rfl

end

theorem getJob_eq_some {id : UInt64} :
    getJob store id = some j ↔ store[jobByIDKey id]? = some (.job j) := by
  rw [getJob, Option.bind_eq_some_iff]
  constructor
  · rintro ⟨_, hv, hj⟩
    rw [hv, job?_eq_some.mp hj]
  · intro h
    exact ⟨_, h, rfl⟩

theorem getJob_deleteJob (j : Job) (id : UInt64) :
    getJob (deleteJob store j) id = if j.id = id then none else getJob store id := by
  rw [getJob, get_id_deleteJob]
  split <;> rfl

theorem getJob_setJob (j : Job) (id : UInt64) :
    getJob (setJob store j) id = if j.id = id then some j else getJob store id := by
  rw [getJob, get_id_setJob]
  split <;> rfl

/-! ## Coherence of the indexes -/

/-- `0x01`: all due-block entries. -/
def dueIndexPrefix : Key := [0x01]

/-- Every record by id has its copy in the due-block index, and every due-block
entry sits at the block and id its own record names. -/
structure Indexed (store : Store) : Prop where
  by_id : ∀ k v, store[k]? = some v → jobByIDKeyPrefix <+: k →
    ∃ j, v = .job j ∧ k = jobByIDKey j.id ∧
      store[jobByDueBlockKey j.executeAtBlock j.id]? = some (.job j)
  by_due : ∀ k v, store[k]? = some v → dueIndexPrefix <+: k →
    ∃ j, v = .job j ∧ k = jobByDueBlockKey j.executeAtBlock j.id

namespace Indexed

variable {store : Store}

theorem empty : Indexed ∅ where
  by_id k v h := by simp at h
  by_due k v h := by simp at h

variable (hs : Indexed store)

include hs

variable {j : Job}

theorem due_of_getJob {id : UInt64} (h : getJob store id = some j) :
    j.id = id ∧ store[jobByDueBlockKey j.executeAtBlock j.id]? = some (.job j) := by
  have hget := getJob_eq_some.mp h
  obtain ⟨_, hj', hk, hdue⟩ := hs.by_id _ _ hget ⟨putUint64 id, rfl⟩
  cases hj'
  exact ⟨(jobByIDKey_inj.mp hk).symm, hdue⟩

theorem mem_jobsDueAt {h : UInt64} : j ∈ jobsDueAt store h ↔
      j.executeAtBlock = h ∧ store[jobByDueBlockKey h j.id]? = some (.job j) := by
  simp only [jobsDueAt, mem_filterMap, Prod.exists, mem_scan_iff, job?_eq_some]
  constructor
  · rintro ⟨k, _, ⟨hget, hpre⟩, rfl⟩
    have hdue : dueIndexPrefix <+: k := (List.IsPrefix.trans ⟨putUint64 h, rfl⟩ hpre)
    obtain ⟨_, hj', rfl⟩ := hs.by_due _ _ hget hdue
    cases hj'
    have hh := jobByDueBlockPrefix_prefix_iff.mp hpre
    exact ⟨hh.symm, by rw [hh]; exact hget⟩
  · rintro ⟨rfl, hget⟩
    exact ⟨_, _, ⟨hget, jobByDueBlockPrefix_prefix_iff.mpr rfl⟩, rfl⟩

theorem jobsDueAt_ids_nodup (h : UInt64) : ((jobsDueAt store h).map Job.id).Nodup := by
  have hdecode : ∀ kv ∈ store.scan (jobByDueBlockPrefix h),
      ∃ j, kv = (jobByDueBlockKey h j.id, .job j) := by
    rintro ⟨_, _⟩ hkv
    obtain ⟨hget, hpre⟩ := mem_scan_iff.mp hkv
    obtain ⟨j, rfl, rfl⟩ := hs.by_due _ _ hget (List.IsPrefix.trans ⟨putUint64 h, rfl⟩ hpre)
    rw [jobByDueBlockPrefix_prefix_iff.mp hpre]
    exact ⟨j, rfl⟩
  -- the keys of one height are those of the ids
  have hkeys : (jobsDueAt store h).map (jobByDueBlockKey h ∘ Job.id) =
      (store.scan (jobByDueBlockPrefix h)).map Prod.fst := by
    rw [jobsDueAt, map_filterMap, ← filterMap_eq_map]
    refine filterMap_congr fun kv hkv => ?_
    obtain ⟨j, rfl⟩ := hdecode kv hkv
    rfl
  refine Nodup.of_map (jobByDueBlockKey h) ?_
  rw [map_map, hkeys]
  exact store.nodup_scan_keys _

theorem insert_of_not_index {k : Key} (v : Value) (hid : ¬ jobByIDKeyPrefix <+: k)
    (hdue : ¬ dueIndexPrefix <+: k) : Indexed (store.insert k v) where
  by_id a w hget hpre := by
    have hne : k ≠ a := fun he => hid (he ▸ hpre)
    rw [get_insert_of_ne _ _ hne] at hget
    obtain ⟨j, hw, ha, hcopy⟩ := hs.by_id a w hget hpre
    refine ⟨j, hw, ha, ?_⟩
    rw [get_insert_of_ne, hcopy]
    rintro rfl
    exact hdue ⟨_, rfl⟩
  by_due a w hget hpre := by
    have hne : k ≠ a := fun he => hdue (he ▸ hpre)
    rw [get_insert_of_ne _ _ hne] at hget
    exact hs.by_due a w hget hpre

theorem bumpNextJobID : Indexed (bumpNextJobID store) :=
  hs.insert_of_not_index _ (by decide) (by decide)

theorem setParams {p : Params} {store' : Store} (h : setParams store p = .ok store') :
    Indexed store' := by
  unfold Scheduler.setParams at h
  split at h
  · cases h
    exact hs.insert_of_not_index _ (by decide) (by decide)
  · cases h

theorem setJob (j : Job) : Indexed (setJob store j) := by
  have hold : ∀ k v, (Scheduler.setJob store j)[k]? = some v → k = creatorJobKey j.creator j.id ∨
      (k = jobByDueBlockKey j.executeAtBlock j.id ∨ k = jobByIDKey j.id) ∧ v = .job j ∨
      k ≠ jobByIDKey j.id ∧ store[k]? = some v := by
    intro k v hget
    simp only [Scheduler.setJob, get_insert] at hget
    grind
  refine ⟨?_, ?_⟩
  · intro k v hget hpre
    rcases hold k v hget with rfl | ⟨rfl | rfl, rfl⟩ | ⟨hk, hget⟩
    · exact absurd hpre (by simp [jobByIDKeyPrefix, creatorJobKey])
    · exact absurd hpre (by simp [jobByIDKeyPrefix, jobByDueBlockKey])
    · exact ⟨j, rfl, rfl, by simp [get_due_setJob]⟩
    obtain ⟨j', rfl, rfl, hcopy⟩ := hs.by_id k v hget hpre
    have hid : j.id ≠ j'.id := fun he => hk (by rw [he])
    exact ⟨j', rfl, rfl, by simp [get_due_setJob, hid, hcopy]⟩
  · intro k v hget hpre
    rcases hold k v hget with rfl | ⟨rfl | rfl, rfl⟩ | ⟨-, hget⟩
    · exact absurd hpre (by simp [dueIndexPrefix, creatorJobKey])
    · exact ⟨j, rfl, rfl⟩
    · exact absurd hpre (by simp [dueIndexPrefix, jobByIDKey])
    · exact hs.by_due k v hget hpre

theorem deleteJob (j : Job) : Indexed (deleteJob store j) := by
  have hold : ∀ k v, (Scheduler.deleteJob store j)[k]? = some v →
      store[k]? = some v ∧ k ≠ jobByIDKey j.id := by
    intro k v hget
    simp only [Scheduler.deleteJob, get_erase] at hget
    split at hget
    · cases hget
    split at hget
    · cases hget
    split at hget
    · cases hget
    · rename_i hk
      exact ⟨hget, .symm hk⟩
  refine ⟨?_, ?_⟩
  · intro k v hget hpre
    obtain ⟨hget, hk⟩ := hold k v hget
    obtain ⟨j', rfl, rfl, hcopy⟩ := hs.by_id k v hget hpre
    have hid : j.id ≠ j'.id := fun he => hk (by rw [he])
    exact ⟨j', rfl, rfl, by simp [get_due_deleteJob, hid, hcopy]⟩
  · intro k v hget hpre
    exact hs.by_due k v (hold k v hget).1 hpre

end Indexed

/-! ## Sums of deposits -/

/-- The recorded deposits of all jobs still stored. -/
def pendingDeposits (store : Store) : Nat :=
  ((getAllJobs store).map Job.depositCoins).sum

/-- What an entry contributes to the sum over the index with the given prefix. -/
def indexDeposit (pre k : Key) (v : Value) : Nat :=
  if pre <+: k then v.job?.elim 0 Job.depositCoins else 0

/-- The recorded deposits of all due-block entries. -/
def dueDeposits (store : Store) : Nat :=
  store.weight (indexDeposit dueIndexPrefix)

@[simp] theorem dueDeposits_empty : dueDeposits ∅ = 0 := weight_empty _

theorem pendingDeposits_eq_weight (store : Store) :
    pendingDeposits store = store.weight (indexDeposit jobByIDKeyPrefix) :=
  sum_scan_filterMap store jobByIDKeyPrefix Value.job? Job.depositCoins

theorem pendingDeposits_le_dueDeposits (hs : Indexed store) :
    pendingDeposits store ≤ dueDeposits store := by
  rw [pendingDeposits_eq_weight]
  -- a record by id is carried to its due-block copy
  let copyOf : Key → Value → Key × Value := fun k v =>
    match v with
    | .job j => (jobByDueBlockKey j.executeAtBlock j.id, v)
    | _ => (k, v)
  have hrecord : ∀ k v, store[k]? = some v → indexDeposit jobByIDKeyPrefix k v ≠ 0 →
      ∃ j, v = .job j ∧ k = jobByIDKey j.id ∧
        store[jobByDueBlockKey j.executeAtBlock j.id]? = some (.job j) := by
    intro k v hget hne
    by_cases hpre : jobByIDKeyPrefix <+: k
    · exact hs.by_id k v hget hpre
    · exact absurd (if_neg hpre) hne
  refine weight_le_of_injection copyOf ?_ ?_
  · intro k v hget hne
    obtain ⟨j, rfl, rfl, hcopy⟩ := hrecord k v hget hne
    refine ⟨hcopy, ?_⟩
    simp [copyOf, indexDeposit, dueIndexPrefix, jobByDueBlockKey, jobByIDKeyPrefix, jobByIDKey]
  intro k v k' v' hget hget' hne hne' heq
  obtain ⟨_, rfl, rfl, -⟩ := hrecord k v hget hne
  obtain ⟨_, rfl, rfl, -⟩ := hrecord k' v' hget' hne'
  have hkey := (Prod.mk.inj heq).1
  rw [(jobByDueBlockKey_inj.mp hkey).2]

variable (store : Store)

theorem indexDeposit_creatorKey (c : List UInt8) (id : UInt64) (v : Value) :
    indexDeposit dueIndexPrefix (creatorJobKey c id) v = 0 := by
  simp [indexDeposit, dueIndexPrefix, creatorJobKey]

theorem indexDeposit_idKey (id : UInt64) (v : Value) :
    indexDeposit dueIndexPrefix (jobByIDKey id) v = 0 := by
  simp [indexDeposit, dueIndexPrefix, jobByIDKey]

theorem indexDeposit_dueKey (h id : UInt64) (j : Job) :
    indexDeposit dueIndexPrefix (jobByDueBlockKey h id) (.job j) = j.depositCoins := by
  simp [indexDeposit, dueIndexPrefix, jobByDueBlockKey]

theorem dueDeposits_bumpNextJobID : dueDeposits (bumpNextJobID store) = dueDeposits store :=
  weight_insert_of_zero (fun _ => if_neg (by decide)) _ _

theorem dueDeposits_setParams {p : Params} {store' : Store} (h : setParams store p = .ok store') :
    dueDeposits store' = dueDeposits store := by
  unfold setParams at h
  split at h
  · cases h
    exact weight_insert_of_zero (fun _ => if_neg (by decide)) _ _
  · cases h

theorem dueDeposits_setJob_le (j : Job) :
    dueDeposits (setJob store j) ≤ dueDeposits store + j.depositCoins := by
  unfold dueDeposits setJob
  rw [weight_insert_of_zero (indexDeposit_creatorKey _ _), weight_insert, indexDeposit_dueKey]
  have herase := weight_erase_add (indexDeposit dueIndexPrefix)
    (store.insert (jobByIDKey j.id) (.job j)) (jobByDueBlockKey j.executeAtBlock j.id)
  rw [weight_insert_of_zero (indexDeposit_idKey _)] at herase
  omega

theorem dueDeposits_deleteJob (h : store[jobByDueBlockKey j.executeAtBlock j.id]? = some (.job j)) :
    dueDeposits (deleteJob store j) + j.depositCoins = dueDeposits store := by
  unfold dueDeposits deleteJob
  rw [weight_erase_of_zero (indexDeposit_creatorKey _ _)]
  have herase := weight_erase_add (indexDeposit dueIndexPrefix)
    (store.erase (jobByIDKey j.id)) (jobByDueBlockKey j.executeAtBlock j.id)
  rw [get_erase_of_ne _ (by simp), h, Option.elim_some, indexDeposit_dueKey,
    weight_erase_of_zero (indexDeposit_idKey _)] at herase
  exact herase

end HyperPax.Scheduler
