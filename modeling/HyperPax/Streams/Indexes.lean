/-
  Streams/Indexes.lean --- the indexes of the streams agree, key by key.

  A stream is stored by id, with a marker under its payer and one under its payee.  Every
  method writes or deletes the three together and none changes the parties of a stream, so
  the two indexes are those of the stored records (`OwnerIndex`): each id has one entry in
  either, the iterators list ids in ascending order, and the number of markers that `Open`
  counts is that of the payer's streams.

  The counter of ids is a 64-bit word.  After `2^64 - 1` streams it is zero, which is read
  as one: the next stream has the id of the first again.
-/
import HyperPax.Lib.OwnerIndex
import HyperPax.Streams.Solvency

set_option autoImplicit false

namespace HyperPax.Streams

open Lib KVStore List State Function Address

/-! ## What the writes do to the indexes -/

/-- A party of the stream with an id. -/
def partyOf (party : Stream → List UInt8) (store : Store) (id : UInt64) : Option (List UInt8) :=
  (getStream store id).map party

section

variable (party : Stream → List UInt8) (store : Store) (s : Stream)

theorem partyOf_of_get {store : Store} {id : UInt64} {found : Option Stream}
    (h : getStream store id = found) : partyOf party store id = found.map party := by
  rw [partyOf, h]

theorem partyOf_setStream : partyOf party (setStream store s) =
      update (partyOf party store) s.id (some (party s)) :=
  owners_update (getStream_setStream store s) party

theorem partyOf_deleteStream :
    partyOf party (deleteStream store s) = update (partyOf party store) s.id none :=
  owners_update (getStream_deleteStream store s) party

theorem partyOf_bumpNextStreamID :
    partyOf party (bumpNextStreamID store) = partyOf party store := by
  funext id
  exact partyOf_of_get party (getStream_bumpNextStreamID store id)

@[simp] theorem getParams_setStream : getParams (setStream store s) = getParams store := by
  simp [getParams, setStream, get_insert]

@[simp] theorem getParams_deleteStream : getParams (deleteStream store s) = getParams store := by
  simp [getParams, deleteStream, get_erase]

@[simp] theorem getParams_bumpNextStreamID :
    getParams (bumpNextStreamID store) = getParams store := by
  rw [getParams, bumpNextStreamID, get_insert_of_ne _ _ (by decide)]
  rfl

end

/-! ## Counting a payer's markers -/

/-- The number of markers of a payer. -/
def markerCount (store : Store) (payer : Address) : Nat :=
  (store.scan (payerStreamsPrefix payer.bytes)).length

section

variable (store : Store) (payer : Address) {s : Stream}

theorem payerStreamsPrefix_not (id : UInt64) (a : List UInt8) :
    ¬ payerStreamsPrefix payer.bytes <+: streamByIDKey id ∧
      ¬ payerStreamsPrefix payer.bytes <+: payeeStreamKey a id := by
  simp [payerStreamsPrefix, streamByIDKey, payeeStreamKey]

theorem markerCount_bumpNextStreamID :
    markerCount (bumpNextStreamID store) payer = markerCount store payer := by
  refine length_scan_insert_of_not _ _ ?_
  simp [payerStreamsPrefix, nextStreamIDKey]

theorem markerCount_setStream_le (hlength : s.payer.length = 20) :
    markerCount (setStream store s) payer ≤
      markerCount store payer + if s.payer = payer.bytes then 1 else 0 := by
  obtain ⟨hid, hpayee⟩ := payerStreamsPrefix_not payer s.id s.payee
  have hmarker := length_scan_insert_le (store.insert (streamByIDKey s.id) (.stream s))
    (payerStreamsPrefix payer.bytes) (payerStreamKey s.payer s.id) .marker
  have hiff : payerStreamsPrefix payer.bytes <+: payerStreamKey s.payer s.id ↔
      s.payer = payer.bytes :=
    ownerPrefix_isPrefix_iff (by rw [hlength, payer.length_bytes])
  rw [length_scan_insert_of_not _ _ hid] at hmarker
  simp only [hiff] at hmarker
  rw [markerCount, setStream, length_scan_insert_of_not _ _ hpayee]
  exact hmarker

theorem markerCount_setStream (hmarker : store[payerStreamKey s.payer s.id]? = some .marker) :
    markerCount (setStream store s) payer = markerCount store payer := by
  obtain ⟨hid, hpayee⟩ := payerStreamsPrefix_not payer s.id s.payee
  have hget : (store.insert (streamByIDKey s.id) (.stream s))[payerStreamKey s.payer s.id]? =
      some .marker := by
    rw [get_insert_of_ne _ _ (payerKey_ne_idKey _ _ _).symm]
    exact hmarker
  rw [markerCount, setStream, length_scan_insert_of_not _ _ hpayee,
    length_scan_insert_of_get hget, length_scan_insert_of_not _ _ hid]
  rfl

theorem markerCount_deleteStream_le (s : Stream) :
    markerCount (deleteStream store s) payer ≤ markerCount store payer :=
  ((length_scan_erase_le _ _ _).trans (length_scan_erase_le _ _ _)).trans
    (length_scan_erase_le _ _ _)

end

/-! ## Stores with matching indexes -/

/-- What holds of the store while the parameters stay `p`. -/
structure Filed (p : Params) (store : Store) : Prop where
  record : ∀ id s, getStream store id = some s → s.id = id ∧ s.active
  payers : OwnerIndex 20 0x02 Value.marker (partyOf Stream.payer store) store
  payees : OwnerIndex 20 0x03 Value.marker (partyOf Stream.payee store) store
  params : getParams store = p
  bounded : ∀ a, markerCount store a ≤ p.maxStreamsPerPayer.toNat

namespace Filed

variable {p : Params} {store : Store} {s : Stream} {id : UInt64}

/-- A store with nothing but parameters. -/
theorem start (h : ∀ key, key ≠ paramsKey → store[key]? = none) :
    Filed (getParams store) store := by
  have hget : ∀ id, getStream store id = none := by
    intro id
    rw [getStream, h _ (paramsKey_ne_idKey id).symm]
    rfl
  have hkeys : ∀ key v, store[key]? = some v → key = paramsKey := by
    intro key v hv
    by_contra hne
    rw [h key hne] at hv
    cases hv
  have hparties : ∀ party, partyOf party store = fun _ => none := by
    intro party
    funext id
    exact partyOf_of_get party (hget id)
  refine ⟨?_, ?_, ?_, rfl, ?_⟩
  · intro _ _ hs
    rw [hget] at hs
    cases hs
  · rw [hparties]
    refine .unmarked ?_
    intro key v hv
    rw [hkeys key v hv]
    decide
  · rw [hparties]
    refine .unmarked ?_
    intro key v hv
    rw [hkeys key v hv]
    decide
  intro a
  have hempty : store.scan (payerStreamsPrefix a.bytes) = [] := by
    refine eq_nil_iff_forall_not_mem.mpr ?_
    rintro ⟨key, v⟩ hmem
    obtain ⟨hv, hpre⟩ := mem_scan_iff.mp hmem
    rw [hkeys key v hv] at hpre
    simp [payerStreamsPrefix, paramsKey] at hpre
  rw [markerCount, hempty]
  exact Nat.zero_le _

theorem bumpNextStreamID (h : Filed p store) : Filed p (bumpNextStreamID store) := by
  refine ⟨?_, ?_, ?_, ?_, ?_⟩
  · intro id s hs
    rw [getStream_bumpNextStreamID] at hs
    exact h.record id s hs
  · rw [partyOf_bumpNextStreamID]
    exact h.payers.insert_other _ (by decide)
  · rw [partyOf_bumpNextStreamID]
    exact h.payees.insert_other _ (by decide)
  · rw [getParams_bumpNextStreamID]
    exact h.params
  · intro a
    rw [markerCount_bumpNextStreamID]
    exact h.bounded a

theorem setStream (h : Filed p store) (hactive : s.active) (hpayer : s.payer.length = 20)
    (hpayee : s.payee.length = 20)
    (hsame : ∀ old, getStream store s.id = some old → old.payer = s.payer ∧ old.payee = s.payee)
    (hcount : ∀ a, markerCount (setStream store s) a ≤ p.maxStreamsPerPayer.toNat) :
    Filed p (setStream store s) := by
  have hpayers := (h.payers.insert_other (.stream s)
    (show ¬ [0x02] <+: streamByIDKey s.id by simp [streamByIDKey])).insert s.id hpayer (by
      intro b hb
      obtain ⟨old, hold, rfl⟩ := Option.map_eq_some_iff.mp hb
      exact (hsame old hold).1)
  have hpayees := ((h.payees.insert_other (.stream s)
    (show ¬ [0x03] <+: streamByIDKey s.id by simp [streamByIDKey])).insert_other .marker
    (show ¬ [0x03] <+: payerStreamKey s.payer s.id by simp [payerStreamKey])).insert s.id
    hpayee (by
      intro _ hb
      obtain ⟨old, hold, rfl⟩ := Option.map_eq_some_iff.mp hb
      exact (hsame old hold).2)
  refine ⟨?_, ?_, ?_, ?_, hcount⟩
  · intro id s' hs'
    rw [getStream_setStream] at hs'
    split at hs'
    · rename_i hid
      cases hs'
      exact ⟨hid, hactive⟩
    · exact h.record id s' hs'
  · rw [partyOf_setStream]
    exact hpayers.insert_other _ (by simp [payeeStreamKey])
  · rw [partyOf_setStream]
    exact hpayees
  · rw [getParams_setStream]
    exact h.params

section

variable (h : Filed p store) (hs : getStream store id = some s)

include h hs

theorem length_parties : s.payer.length = 20 ∧ s.payee.length = 20 := by
  exact ⟨h.payers.owner_length id _ (partyOf_of_get _ hs),
    h.payees.owner_length id _ (partyOf_of_get _ hs)⟩

theorem marker_payer : store[payerStreamKey s.payer id]? = some .marker :=
  h.payers.marked id s.payer (partyOf_of_get _ hs)

end

variable {s' : Stream}

theorem replace (h : Filed p store) (hs : getStream store id = some s) (hid : s'.id = s.id)
    (hpayer : s'.payer = s.payer) (hpayee : s'.payee = s.payee) (hactive : s'.active = s.active) :
    Filed p (Streams.setStream store s') := by
  obtain ⟨rfl, hlive⟩ := h.record id s hs
  obtain ⟨hlength, hlength'⟩ := h.length_parties hs
  refine h.setStream (by rw [hactive, hlive]) (by rw [hpayer, hlength]) (by rw [hpayee, hlength'])
    ?_ ?_
  · intro _ hold
    rw [hid, hs] at hold
    cases hold
    exact ⟨hpayer.symm, hpayee.symm⟩
  intro a
  rw [markerCount_setStream]
  · exact h.bounded a
  · rw [hid, hpayer]
    exact h.marker_payer hs

theorem deleteStream (h : Filed p store) (hs : getStream store id = some s) (hid : s'.id = s.id)
    (hpayer : s'.payer = s.payer) (hpayee : s'.payee = s.payee) :
    Filed p (deleteStream store s') := by
  obtain ⟨rfl, -⟩ := h.record id s hs
  have hpayers := (h.payers.erase_other
    (show ¬ [0x02] <+: streamByIDKey s'.id by simp [streamByIDKey])).erase
    s'.id (a := s'.payer) (by
      rw [hid, hpayer]
      exact partyOf_of_get _ hs)
  have hpayees := ((h.payees.erase_other
    (show ¬ [0x03] <+: streamByIDKey s'.id by simp [streamByIDKey])).erase_other
    (show ¬ [0x03] <+: payerStreamKey s'.payer s'.id by simp [payerStreamKey])).erase
    s'.id (a := s'.payee) (by
      rw [hid, hpayee]
      exact partyOf_of_get _ hs)
  refine ⟨?_, ?_, ?_, ?_, ?_⟩
  · intro id t ht
    rw [getStream_deleteStream] at ht
    split at ht
    · cases ht
    · exact h.record id t ht
  · rw [partyOf_deleteStream]
    exact hpayers.erase_other (by simp [payeeStreamKey])
  · rw [partyOf_deleteStream]
    exact hpayees
  · rw [getParams_deleteStream]
    exact h.params
  · intro a
    exact (markerCount_deleteStream_le store a s').trans (h.bounded a)

theorem openStream (h : Filed p store) {payer : Address} (payee token : Address) (rate : Int)
    (startTime stopTime : UInt64) (cap : Int) (hnew : getStream store (nextStreamID store) = none)
    (hcount : countStreamsByPayer store payer.bytes < p.maxStreamsPerPayer) :
    Filed p (Streams.setStream (Streams.bumpNextStreamID store)
      (newStream store payer payee token rate startTime stopTime cap)) := by
  refine h.bumpNextStreamID.setStream rfl payer.length_bytes payee.length_bytes ?_ ?_
  · intro _ hold
    rw [getStream_bumpNextStreamID] at hold
    have hid : (newStream store payer payee token rate startTime stopTime cap).id =
        nextStreamID store := rfl
    rw [hid, hnew] at hold
    cases hold
  intro a
  have hadd := markerCount_setStream_le (Streams.bumpNextStreamID store) a
    (show (newStream store payer payee token rate startTime stopTime cap).payer.length = 20
      from payer.length_bytes)
  rw [markerCount_bumpNextStreamID] at hadd
  split at hadd
  · rename_i hpayer
    obtain rfl : payer = a := ext hpayer
    exact hadd.trans (succ_le_of_ofNat_lt (h.bounded payer) hcount)
  · exact hadd.trans (h.bounded a)

end Filed

/-! ## Ids handed out -/

/-- The id of a stream that was opened. -/
def Event.opened? : Event → Option UInt64
  | .opened id _ => some id
  | .paid _ _ | .closed _ _ => none

/-- The ids handed out, oldest first. -/
def openedIds (H : List Event) : List UInt64 := H.filterMap Event.opened?

theorem openedIds_append (H es : List Event) :
    openedIds (H ++ es) = openedIds H ++ openedIds es := filterMap_append

/-- What holds of a configuration while the parameters stay `p` and the counter does not pass
its last value. -/
structure Kept (p : Params) (c : Config) : Prop where
  filed : Filed p c.state.store
  below : IdsBelow (storedCounter c.state.store) (· ∈ openedIds c.history)
  opened : ∀ id s, getStream c.state.store id = some s → id ∈ openedIds c.history
  distinct : (openedIds c.history).Nodup

/-- The parameters stay, and no stream is opened once the counter has wrapped around. -/
def Steady : Config → Label → Prop
  | _, .setParams _ => False
  | c, .op _ (.openStream _ _ _ _ _ _ _) => ¬ CounterWrapped c.state.store
  | _, _ => True

instance (c : Config) (l : Label) : Decidable (Steady c l) := by
  unfold Steady
  split <;> infer_instance

namespace Kept

variable {p : Params} {c : Config} {es : List Event} {s' : State} {k : Keeper}

theorem keep (h : Kept p c) {s : State} (hfiled : Filed p s.store)
    (hcounter : storedCounter s.store = storedCounter c.state.store)
    (hold : ∀ id, getStream s.store id ≠ none → getStream c.state.store id ≠ none)
    (hes : openedIds es = []) : Kept p ⟨c.now, s, c.history ++ es⟩ := by
  have hsame : openedIds (c.history ++ es) = openedIds c.history := by
    rw [openedIds_append, hes, append_nil]
  refine ⟨hfiled, ?_, ?_, ?_⟩
  · simp only [hcounter, hsame]
    exact h.below
  · intro id _ hst
    obtain ⟨old, hget⟩ := Option.ne_none_iff_exists'.mp (hold id (by rw [hst]; simp))
    simp only [hsame]
    exact h.opened id old hget
  · simp only [hsame]
    exact h.distinct

theorem replace (h : Kept p c) {id : UInt64} {s st : Stream} (hstore : s'.store = c.state.store)
    (hget : getStream c.state.store id = some s) (hid : st.id = s.id)
    (hpayer : st.payer = s.payer) (hpayee : st.payee = s.payee) (hactive : st.active = s.active)
    (hes : openedIds es = []) :
    Kept p ⟨c.now, s'.withStore fun store => setStream store st, c.history ++ es⟩ := by
  refine h.keep ?_ ?_ ?_ hes
  · rw [withStore_store, hstore]
    exact h.filed.replace hget hid hpayer hpayee hactive
  · rw [withStore_store, storedCounter_setStream, hstore]
  intro _
  rw [withStore_store, getStream_setStream, hstore]
  split
  · rename_i hid'
    intro _ hnone
    obtain ⟨hs, -⟩ := h.filed.record id s hget
    rw [← hid', hid, hs, hget] at hnone
    cases hnone
  · exact fun hne => hne

/-- A new stream, before the counter has wrapped around. -/
theorem openStream (h : Kept p c) (hwrap : ¬ CounterWrapped c.state.store) {payer : Address}
    (payee token : Address) (rate : Int) (startTime stopTime : UInt64) (cap : Int)
    (hstore : s'.store = c.state.store)
    (hcount : countStreamsByPayer c.state.store payer.bytes < p.maxStreamsPerPayer) :
    Kept p ⟨c.now, s'.withStore fun store => setStream (bumpNextStreamID store)
        (newStream store payer payee token rate startTime stopTime cap),
      c.history ++ [.opened (nextStreamID c.state.store) cap]⟩ := by
  have hbelow := h.below.resolve_left hwrap
  have hunused : nextStreamID c.state.store ∉ openedIds c.history := fun hmem =>
    UInt64.lt_irrefl _ (hbelow _ hmem)
  have hnew : getStream c.state.store (nextStreamID c.state.store) = none := by
    cases hget : getStream c.state.store (nextStreamID c.state.store) with
    | none => rfl
    | some s => exact absurd (h.opened _ s hget) hunused
  have hids : openedIds (c.history ++ [.opened (nextStreamID c.state.store) cap]) =
      openedIds c.history ++ [nextStreamID c.state.store] := openedIds_append _ _
  refine ⟨?_, ?_, ?_, ?_⟩
  · simp only [withStore_store, hstore]
    exact h.filed.openStream payee token rate startTime stopTime cap hnew hcount
  · simp only [withStore_store, hstore, storedCounter_setStream,
      storedCounter_bumpNextStreamID, hids]
    refine IdsBelow.allocate hbelow ?_
    intro id hid
    rw [mem_append, mem_singleton] at hid
    exact hid
  · intro id st hst
    simp only [withStore_store, hstore, getStream_setStream,
      getStream_bumpNextStreamID] at hst
    simp only [hids, mem_append, mem_singleton]
    split at hst
    · rename_i hid
      exact .inr hid.symm
    · exact .inl (h.opened id st hst)
  · simp only [hids]
    refine nodup_append.mpr ⟨h.distinct, nodup_singleton _, ?_⟩
    rintro _ hid _ hid' rfl
    exact hunused (mem_singleton.mp hid' ▸ hid)

theorem perform (h : Kept p c) {env : Env} {o : Op} (hsteady : Steady c (.op env o)) :
    Kept p (c.perform k env o) := by
  -- a call that fails may have paid, but has not written to the store
  have hfail : ∀ {s : State}, s.store = c.state.store → Kept p ⟨c.now, s, c.history⟩ := by
    intro s hs
    have hkeep : Kept p ⟨c.now, s, c.history ++ []⟩ :=
      h.keep (by rw [hs]; exact h.filed) (by rw [hs]) (by rw [hs]; exact fun _ hne => hne) rfl
    rwa [append_nil] at hkeep
  cases o with
  | openStream payer payee token rate startTime stopTime cap =>
    rcases openStream_cases k env c.now c.state payer payee token rate startTime stopTime cap with
      ⟨e, he⟩ | ⟨-, -, -, hcount, s', hmoved, hrun⟩
    · rw [perform_of_error (Action.run_bind_of_error he)]
      exact hfail rfl
    rw [perform_of_ok (Action.run_bind_of_ok hrun)]
    rw [h.filed.params] at hcount
    exact h.openStream hsteady payee token rate _ stopTime cap hmoved.store hcount
  | settle streamID =>
    rcases settle_cases k env c.now c.state streamID with
      ⟨e, he⟩ | ⟨st, hget, ⟨-, hrun⟩ | ⟨-, s', hmoved, hrun⟩⟩
    · rw [perform_of_error (Action.run_bind_of_error he)]
      exact hfail rfl
    · rw [perform_of_ok (Action.run_bind_of_ok hrun)]
      exact h.keep h.filed rfl (fun _ hne => hne) rfl
    rw [perform_of_ok (Action.run_bind_of_ok hrun)]
    exact h.replace hmoved.store hget (addSettled_id st) (addSettled_payer st)
      (addSettled_payee st) (addSettled_active st) rfl
  | close streamID caller =>
    rcases close_cases k env c.now c.state streamID caller.bytes with
      ⟨e, he⟩ | ⟨st, s', hget, -, -, hmoved, ⟨-, e, hrun⟩ | ⟨s'', hmoved', hrun⟩⟩
    · rw [perform_of_error (Action.run_bind_of_error he)]
      exact hfail rfl
    · rw [perform_of_error (Action.run_bind_of_error hrun)]
      exact hfail hmoved.store
    rw [perform_of_ok (Action.run_bind_of_ok hrun)]
    have hstore : s''.store = c.state.store := hmoved'.store.trans hmoved.store
    refine h.keep ?_ ?_ ?_ rfl
    · rw [withStore_store, hstore]
      exact h.filed.deleteStream hget (addSettled_id st) (addSettled_payer st)
        (addSettled_payee st)
    · rw [withStore_store, storedCounter_deleteStream, hstore]
    intro _
    rw [withStore_store, getStream_deleteStream, hstore]
    split
    · exact fun hne => absurd rfl hne
    · exact fun hne => hne
  | updateRate streamID caller newRate =>
    rcases updateRate_cases k env c.now c.state streamID caller.bytes newRate with
      ⟨_, he⟩ | ⟨st, _, hget, -, -, hmoved, hrun⟩
    · rw [perform_of_error (Action.run_bind_of_error he)]
      exact hfail rfl
    rw [perform_of_ok (Action.run_bind_of_ok hrun)]
    exact h.replace hmoved.store hget (addSettled_id st) (addSettled_payer st)
      (addSettled_payee st) (addSettled_active st) rfl

theorem step (h : Kept p c) {c' : Config} {l : Label} (hsteady : Steady c l)
    (hstep : step k c l = some c') : Kept p c' := by
  cases l with
  | setParams => cases hsteady
  | op =>
    cases hstep
    exact h.perform hsteady
  | advance =>
    simp only [Streams.step] at hstep
    split at hstep
    · cases hstep
      exact ⟨h.filed, h.below, h.opened, h.distinct⟩
    · cases hstep

end Kept

/-! ## Agreement -/

/-- The indexes of a configuration agree, over the raw keys of its store, each payer stays within
the limit, and no id was handed out twice. -/
structure IndexesAgree (p : Params) (c : Config) : Prop where
  record : ∀ id s, getStream c.state.store id = some s → s.id = id ∧ s.active
  stored : ∀ id s, getStream c.state.store id = some s →
    entriesOf c.state.store 0x02 id = [(payerStreamKey s.payer id, .marker)] ∧
    entriesOf c.state.store 0x03 id = [(payeeStreamKey s.payee id, .marker)]
  absent : ∀ id, getStream c.state.store id = none →
    entriesOf c.state.store 0x02 id = [] ∧ entriesOf c.state.store 0x03 id = []
  of_payer : ∀ (a : Address) id, id ∈ payerStreamIDs c.state.store a.bytes ↔
    ∃ s, getStream c.state.store id = some s ∧ s.payer = a.bytes
  of_payee : ∀ (a : Address) id, id ∈ payeeStreamIDs c.state.store a.bytes ↔
    ∃ s, getStream c.state.store id = some s ∧ s.payee = a.bytes
  ascending : ∀ a : Address, (payerStreamIDs c.state.store a.bytes).Pairwise (· < ·) ∧
    (payeeStreamIDs c.state.store a.bytes).Pairwise (· < ·)
  limited : ∀ a : Address,
    (payerStreamIDs c.state.store a.bytes).length ≤ p.maxStreamsPerPayer.toNat
  distinct : (openedIds c.history).Nodup

theorem Kept.indexesAgree {p : Params} {c : Config} (h : Kept p c) : IndexesAgree p c where
  record := h.filed.record
  stored _ _ hs :=
    ⟨h.filed.payers.entriesOf_some (partyOf_of_get _ hs),
      h.filed.payees.entriesOf_some (partyOf_of_get _ hs)⟩
  absent _ hnone :=
    ⟨h.filed.payers.entriesOf_none (partyOf_of_get _ hnone),
      h.filed.payees.entriesOf_none (partyOf_of_get _ hnone)⟩
  of_payer a id :=
    (h.filed.payers.mem_idsAfter a.length_bytes id).trans Option.map_eq_some_iff
  of_payee a id :=
    (h.filed.payees.mem_idsAfter a.length_bytes id).trans Option.map_eq_some_iff
  ascending a :=
    ⟨h.filed.payers.pairwise_idsAfter a.length_bytes,
      h.filed.payees.pairwise_idsAfter a.length_bytes⟩
  limited a := (length_idsAfter_le _ _ _).trans (h.filed.bounded a)
  distinct := h.distinct

/-- From a store with nothing but parameters, in every run in which the parameters stay and no
stream is opened once the counter of ids has wrapped around, the indexes agree. -/
theorem streamIndexes_agree (k : Keeper) (now : UInt64) (store : Store)
    (assets : Address → Ledger) (hempty : ∀ key, key ≠ paramsKey → store[key]? = none) (c : Config)
    (h : Path (step k) Steady ⟨now, ⟨store, assets⟩, []⟩ c) : IndexesAgree (getParams store) c := by
  have hstart : Kept (getParams store) ⟨now, ⟨store, assets⟩, []⟩ := by
    refine ⟨Filed.start hempty, ?_, ?_, nodup_nil⟩
    · exact .inr fun id hid => by cases hid
    intro id _ hs
    rw [getStream, hempty _ (paramsKey_ne_idKey id).symm] at hs
    cases hs
  have hkept : Kept (getParams store) c :=
    Path.invariant (fun t l u ht hok hl => ht.step hok hl) hstart h
  exact hkept.indexesAgree

/-! ## After the last id -/

namespace LastStream

open DeclinedRefund (keeper payer payee)

/-- The payer has one native coin, which every stream takes and returns. -/
def assets : Address → Ledger := fun t a => if t = .zero ∧ a = payer then 1 else 0

def env : Env := DeclinedRefund.env false

/-- The parameters stay. -/
def SameParams : Config → Label → Prop
  | _, .setParams _ => False
  | _, _ => True

/-- The store holds nothing but the counter, and the payer has a coin. -/
structure Ready (c : Config) : Prop where
  only : ∀ key, key ≠ nextStreamIDKey → c.state.store[key]? = none
  coin : 1 ≤ c.state.assets .zero payer

theorem deleteStream_setStream {store : Store} {s s' : Stream} (hid : s'.id = s.id)
    (hpayer : s'.payer = s.payer) (hpayee : s'.payee = s.payee)
    (hget : store[streamByIDKey s.id]? = none) (hget₂ : store[payerStreamKey s.payer s.id]? = none)
    (hget₃ : store[payeeStreamKey s.payee s.id]? = none) :
    deleteStream (setStream store s) s' = store := by
  refine Std.ExtTreeMap.ext_getElem? fun key => ?_
  rw [deleteStream, hid, hpayer, hpayee, setStream]
  simp only [get_erase, get_insert]
  split
  · rename_i hkey
    rw [← hkey, hget₃]
  split
  · rename_i hkey
    rw [← hkey, hget₂]
  split
  · rename_i hkey
    rw [← hkey, hget]
  · rfl

namespace Ready

variable {c : Config}

theorem getParams_eq (h : Ready c) : getParams c.state.store = defaultParams := by
  rw [getParams, h.only _ (by decide)]

theorem open_ok (h : Ready c) : (openStream keeper env c.now payer payee zero 1 0 0 1).run c.state =
      ((c.state.pay zero payer keeper.moduleAccount 1).withStore fun store =>
          setStream (bumpNextStreamID store) (newStream store payer payee zero 1 c.now 0 1),
        .ok (nextStreamID c.state.store)) := by
  have hempty : c.state.store.scan (payerStreamsPrefix payer.bytes) = [] := by
    refine eq_nil_iff_forall_not_mem.mpr ?_
    rintro ⟨key, _⟩ hmem
    obtain ⟨hv, hpre⟩ := mem_scan_iff.mp hmem
    by_cases hkey : key = nextStreamIDKey
    · rw [hkey] at hpre
      simp [payerStreamsPrefix, nextStreamIDKey] at hpre
    · rw [h.only key hkey] at hv
      cases hv
  refine openStream_of_accepts keeper env c.now (by decide) (by decide) (by decide) (by decide)
    (fun htime => htime.1 rfl) ?_ (.inr (by decide)) h.coin
  rw [countStreamsByPayer, hempty, h.getParams_eq]
  decide

theorem close_ok (h : Ready c) {s : State}
    (hs : s = (c.state.pay .zero payer keeper.moduleAccount 1).withStore fun store =>
      setStream (bumpNextStreamID store) (newStream store payer payee .zero 1 c.now 0 1)) :
    ∃ s', (close keeper env c.now (nextStreamID c.state.store) payer.bytes).run s =
        (s', .ok (0, 1)) ∧
      s'.store = bumpNextStreamID c.state.store ∧ 1 ≤ s'.assets zero payer := by
  subst hs
  let st := newStream c.state.store payer payee .zero 1 c.now 0 1
  have haccrued : streamAccrued st c.now = 0 := by
    have hnow : effectiveNow st c.now = c.now := if_neg fun hstop => hstop.1 rfl
    rw [streamAccrued, hnow]
    exact if_pos (UInt64.le_refl _)
  have hsettled : st.addSettled (streamAccrued st c.now) = st := by
    rw [haccrued]
    rfl
  have hunspent : unspentCap st = 1 := by
    have hcap : parseAmount st.cap = 1 := parseAmount_formatInt (d := 1) (by decide)
    have hzero : parseAmount st.settled = 0 := parseAmount_formatInt (d := 0) (by decide)
    rw [unspentCap_eq (by omega), hcap, hzero]
    rfl
  have hget : getStream (setStream (bumpNextStreamID c.state.store) st)
      (nextStreamID c.state.store) = some st := by
    rw [getStream_setStream]
    exact if_pos rfl
  have hstore : deleteStream (setStream (bumpNextStreamID c.state.store) st) st =
      bumpNextStreamID c.state.store := by
    have hold : ∀ key, key ≠ nextStreamIDKey →
        (bumpNextStreamID c.state.store)[key]? = none := by
      intro key hkey
      rw [bumpNextStreamID, get_insert_of_ne _ _ hkey.symm, h.only key hkey]
    exact deleteStream_setStream rfl rfl rfl (hold _ (idKey_ne _).2)
      (hold _ (payerKey_ne _ _).2) (hold _ (payeeKey_ne _ _).2)
  have hzero : ofBytes st.token = zero := ofBytes_bytes zero
  have hpayer : .ofBytes st.payer = payer := ofBytes_bytes payer
  have hrun := close_of_accepts keeper env c.now (s := (c.state.pay .zero payer
      keeper.moduleAccount 1).withStore fun store => setStream (bumpNextStreamID store) st)
    payer.bytes hget rfl (.inl rfl)
    (.inl haccrued.le) (by rw [haccrued]; exact Nat.zero_le _)
  rw [hsettled, hunspent, haccrued, hzero, hpayer, Int.toNat_zero, pay_zero] at hrun
  have hmodule : keeper.moduleAccount ≠ payer := by decide
  have haccepts : Accepts env.second zero.bytes keeper.moduleAccount payer 1 := by decide
  have hback := hrun haccepts (by
    rw [withStore_assets, pay_assets_same, Ledger.transfer_dst _ _ hmodule.symm]
    exact Nat.le_add_left _ _)
  refine ⟨_, hback, ?_, ?_⟩
  · rw [withStore_store, pay_store, withStore_store, pay_store]
    exact hstore
  · rw [withStore_assets, pay_assets_same, Ledger.transfer_dst _ _ hmodule]
    exact Nat.le_add_left _ _

theorem round (h : Ready c) : ∃ c', Path (step keeper) SameParams c c' ∧ Ready c' ∧
      storedCounter c'.state.store = some (nextStreamID c.state.store + 1) ∧
      openedIds c'.history = openedIds c.history ++ [nextStreamID c.state.store] := by
  obtain ⟨s', hclose, hstore, hcoin⟩ := h.close_ok rfl
  have hopen : (execOp keeper env c.now (.openStream payer payee zero 1 0 0 1)).run
      c.state = _ := Action.run_bind_of_ok h.open_ok
  have hfirst := perform_of_ok hopen
  let c₁ := c.perform keeper env (.openStream payer payee zero 1 0 0 1)
  have hsecond : c₁.perform keeper env (.close (nextStreamID c.state.store) payer) =
      ⟨c.now, s', c₁.history ++ [.paid (nextStreamID c.state.store) 0,
        .closed (nextStreamID c.state.store) 1]⟩ := by
    have hrun : (execOp keeper env c₁.now (.close (nextStreamID c.state.store) payer)).run
        c₁.state = (s', .ok [.paid (nextStreamID c.state.store) 0,
          .closed (nextStreamID c.state.store) 1]) := by
      simp only [c₁, hfirst]
      exact Action.run_bind_of_ok hclose
    rw [perform_of_ok hrun]
    simp only [c₁, hfirst]
  refine ⟨c₁.perform keeper env (.close (nextStreamID c.state.store) payer), ?_, ?_, ?_, ?_⟩
  · exact (Path.single (l := .op env (.openStream payer payee zero 1 0 0 1)) trivial
      rfl).trans (.single (l := .op env (.close (nextStreamID c.state.store) payer)) trivial rfl)
  · rw [hsecond]
    refine ⟨?_, hcoin⟩
    intro key hkey
    rw [hstore, bumpNextStreamID, get_insert_of_ne _ _ hkey.symm, h.only key hkey]
  · rw [hsecond]
    rw [hstore, storedCounter_bumpNextStreamID]
  · rw [hsecond]
    simp only [c₁, hfirst, openedIds_append]
    exact append_nil _

theorem rounds (hstart : Ready c) (hcounter : nextStreamID c.state.store = 1) (n : Nat)
    (hn : n + 1 < 2 ^ 64) : ∃ c', Path (step keeper) SameParams c c' ∧ Ready c' ∧
      nextStreamID c'.state.store = .ofNat (n + 1) ∧ (0 < n → 1 ∈ openedIds c'.history) := by
  induction n with
  | zero => exact ⟨c, .refl, hstart, hcounter, fun h => absurd h (lt_irrefl 0)⟩
  | succ n ih =>
    obtain ⟨_, hpath, hready, hnext, hopened⟩ := ih (by omega)
    obtain ⟨c₂, hround, hready₂, hstored, hids⟩ := hready.round
    refine ⟨c₂, hpath.trans hround, hready₂, ?_, ?_⟩
    · have hsucc : (.ofNat (n + 1) + 1 : UInt64) = .ofNat (n + 1 + 1) :=
        (UInt64.ofNat_add (n + 1) 1).symm
      have hne : UInt64.ofNat (n + 1 + 1) ≠ 0 := by
        intro hzero
        have htoNat := congrArg UInt64.toNat hzero
        rw [UInt64.toNat_ofNat', UInt64.toNat_zero] at htoNat
        omega
      rw [nextStreamID, hstored, hnext, hsucc]
      exact if_neg hne
    · intro _
      rw [hids, mem_append]
      by_cases hzero : n = 0
      · subst hzero
        rw [hnext]
        exact .inr (mem_singleton_self _)
      · exact .inl (hopened (Nat.pos_of_ne_zero hzero))

end Ready

end LastStream

open DeclinedRefund (keeper payer payee) in
open LastStream in
/-- After `2^64 - 1` streams, each closed before the next is opened, the next stream has the id of
the first. -/
theorem streamId_reused : ∃ c, Path (step keeper) SameParams ⟨1000, ⟨∅, assets⟩, []⟩ c ∧
      ¬ IndexesAgree (getParams ∅) c := by
  have hready : Ready ⟨1000, ⟨∅, assets⟩, []⟩ :=
    ⟨fun key _ => Std.ExtTreeMap.getElem?_empty, by decide⟩
  have hfirst : nextStreamID (∅ : Store) = 1 := by
    rw [nextStreamID, storedCounter, Std.ExtTreeMap.getElem?_empty]
    rfl
  obtain ⟨_, hpath₁, hready₁, hnext₁, hopened⟩ :=
    hready.rounds hfirst (2 ^ 64 - 2) (by decide)
  -- the stream with the last number leaves the counter at zero
  obtain ⟨c₂, hpath₂, hready₂, hstored₂, hids₂⟩ := hready₁.round
  have hnext₂ : nextStreamID c₂.state.store = 1 := by
    rw [nextStreamID, hstored₂, hnext₁]
    decide
  obtain ⟨c₃, hpath₃, -, -, hids₃⟩ := hready₂.round
  refine ⟨c₃, (hpath₁.trans hpath₂).trans hpath₃, ?_⟩
  intro hagree
  have hdist := hagree.distinct
  rw [hids₃, hnext₂, nodup_append] at hdist
  refine hdist.2.2 1 ?_ 1 (mem_singleton_self _) rfl
  rw [hids₂]
  exact mem_append_left _ (hopened (by decide))

open DeclinedRefund (keeper payer payee) in
open LastStream in
/-- Two streams are opened, the rate of the second is changed and the first is closed. -/
theorem streamIndexes_agree_after_close : ∃ c, Path (step keeper) Steady
        ⟨1000, ⟨∅, fun _ a => if a = payer then 500 else 0⟩, []⟩ c ∧
      payerStreamIDs c.state.store payer.bytes = [2] ∧ openedIds c.history = [1, 2] ∧
      IndexesAgree (getParams ∅) c := by
  obtain ⟨c, hpath, hids, hopened⟩ :
      ∃ c, Path (step keeper) Steady ⟨1000, ⟨∅, fun _ a => if a = payer then 500 else 0⟩, []⟩ c ∧
        payerStreamIDs c.state.store payer.bytes = [2] ∧ openedIds c.history = [1, 2] :=
    exists_path _
      [.op env (.openStream payer payee .zero 1 0 0 100),
        .op env (.openStream payer payee zero 2 0 0 100), .advance 1010,
        .op env (.updateRate 2 payer 3), .op env (.close 1 payee)] (by decide +kernel)
  exact ⟨c, hpath, hids, hopened, streamIndexes_agree keeper 1000 ∅ _
    (fun _ _ => Std.ExtTreeMap.getElem?_empty) c hpath⟩

end HyperPax.Streams
