/-
  Evm/Calls.lean --- the interface of the StateDB, and the single changes it makes.

  Source: x/evm/statedb/{statedb,state_object,journal,access_list}.go.

  `exec` is one call of the interface on a StateDB over a fixed keeper; `none` is a
  panic.  A call loads accounts and slots into the cache and changes objects, and every
  change is journaled.  `Change` lists the kinds of single changes with the entry each
  leaves on the journal; `exec_cases` says that a call is a sequence of such changes, a
  snapshot, or a revert.  What holds of the interface is proved change by change.
-/
import HyperPax.Evm.Balances
import HyperPax.Lib.Journal

set_option autoImplicit false

namespace HyperPax.Evm

open Lib Action StateDB Function

/-! ## Getters -/

namespace AccessList

/-- `ContainsAddress`. -/
def containsAddress (al : AccessList) (a : Address) : Bool := (al.addresses a).isSome

/-- `Contains`: whether the address and whether the slot are present. -/
def contains (al : AccessList) (a : Address) (slot : Hash) : Bool × Bool :=
  match al.addresses a with
  | none => (false, false)
  | some idx =>
    if idx = -1 then (true, false) else (true, (al.slots.getD idx.toNat []).contains slot)

end AccessList

/-- `empty` of a state object. -/
def StateObject.empty (o : StateObject) : Bool :=
  o.account.nonce = 0 ∧ o.account.balance = 0 ∧ o.account.codeHash = emptyCodeHash

namespace StateDB

section

variable (b : Backend) (db : StateDB) (a : Address)

/-- `Empty`. -/
def empty : Bool :=
  match db.find? b a with
  | some o => o.empty
  | none => true

/-- `GetNonce`. -/
def getNonce : UInt64 :=
  match db.find? b a with
  | some o => o.account.nonce
  | none => 0

/-- `GetCode`. -/
def getCode : Option (List UInt8) :=
  match db.find? b a with
  | some o => o.getCode b
  | none => none

/-- `GetCodeHash`. -/
def getCodeHash : Hash :=
  match db.find? b a with
  | some o => o.account.codeHash
  | none => 0

/-- `GetState`. -/
def getState (key : Hash) : Hash :=
  match db.find? b a with
  | some o => (o.getState b a key).1
  | none => 0

/-- `GetCommittedState`. -/
def getCommittedState (key : Hash) : Hash :=
  match db.find? b a with
  | some o => (o.getCommittedState b a key).1
  | none => 0

/-- `HasSuicided`. -/
def hasSuicided : Bool :=
  match db.find? b a with
  | some o => o.suicided
  | none => false

/-- The cache `GetState` leaves. -/
def loadState (key : Hash) : StateDB :=
  match db.find? b a with
  | some o => db.setStateObject a (o.getState b a key).2
  | none => db

/-- The cache `GetCommittedState` leaves. -/
def loadCommittedState (key : Hash) : StateDB :=
  match db.find? b a with
  | some o => db.setStateObject a (o.getCommittedState b a key).2
  | none => db

end

/-- What the getters return. -/
structure View where
  exist : Address → Bool
  empty : Address → Bool
  balance : Address → Int
  nonce : Address → UInt64
  code : Address → Option (List UInt8)
  codeHash : Address → Hash
  state : Address → Hash → Hash
  committedState : Address → Hash → Hash
  suicided : Address → Bool
  refund : UInt64
  logs : List Log
  addressInAccessList : Address → Bool
  slotInAccessList : Address → Hash → Bool × Bool

/-- All getters. -/
def view (b : Backend) (db : StateDB) : View where
  exist := db.exist b
  empty := db.empty b
  balance := db.getBalance b
  nonce := db.getNonce b
  code := db.getCode b
  codeHash := db.getCodeHash b
  state := db.getState b
  committedState := db.getCommittedState b
  suicided := db.hasSuicided b
  refund := db.refund
  logs := db.logs
  addressInAccessList := db.accessList.containsAddress
  slotInAccessList := db.accessList.contains

/-! ## Calls -/

/-- A call of the interface.  The last three stand for the getters, which leave what they
read in the cache. -/
inductive Call where
  | addBalance (a : Address) (amount : Int)
  | subBalance (a : Address) (amount : Int)
  | setNonce (a : Address) (nonce : UInt64)
  | setCode (a : Address) (code : List UInt8)
  | setState (a : Address) (key value : Hash)
  | suicide (a : Address)
  | createAccount (a : Address)
  | addLog (a : Address) (topics : List Hash) (data : List UInt8)
  | addRefund (gas : UInt64)
  | subRefund (gas : UInt64)
  | addAddressToAccessList (a : Address)
  | addSlotToAccessList (a : Address) (slot : Hash)
  | snapshot
  | revertToSnapshot (revid : Nat)
  | load (a : Address)
  | loadState (a : Address) (key : Hash)
  | loadCommittedState (a : Address) (key : Hash)

/-- One call; `none` is a panic. -/
def exec (keccak : List UInt8 → Hash) (b : Backend) (db : StateDB) : Call → Option StateDB
  | .addBalance a amount => some (db.addBalance b a amount)
  | .subBalance a amount => some (db.subBalance b a amount)
  | .setNonce a nonce => some (db.setNonce b a nonce)
  | .setCode a code => some (db.setCode keccak b a code)
  | .setState a key value => some (db.setState b a key value)
  | .suicide a => some (db.suicide b a)
  | .createAccount a => some (db.createAccount b a)
  | .addLog a topics data => some (db.addLog a topics data)
  | .addRefund gas => some (db.addRefund gas)
  | .subRefund gas => db.subRefund gas
  | .addAddressToAccessList a => some (db.addAddressToAccessList a)
  | .addSlotToAccessList a slot => some (db.addSlotToAccessList a slot)
  | .snapshot => some db.snapshot.1
  | .revertToSnapshot revid => db.revertToSnapshot b revid
  | .load a => some (db.touch b a)
  | .loadState a key => some (db.loadState b a key)
  | .loadCommittedState a key => some (db.loadCommittedState b a key)

end StateDB

/-! ## Single changes -/

/-- The value of a slot that is in the cache. -/
def StateObject.cachedSlot (o : StateObject) (key : Hash) : Option Hash :=
  (o.dirtyStorage key).or (o.originStorage key)

section

variable (b : Backend) (codeOk : Address → Hash → List UInt8 → Prop)
  (resetOk : StateDB → Address → StateObject → Prop)

/-- A change of one cached object, with its journal entry.  `codeOk` says which code may be
set. -/
inductive FieldChange (a : Address) (o : StateObject) : JournalEntry → StateObject → Prop where
  | balance (amount : Int) :
    FieldChange a o (.balance a o.account.balance) (o.setBalance amount)
  | nonce (nonce : UInt64) :
    FieldChange a o (.nonce a o.account.nonce) (o.setNonce nonce)
  | code (codeHash : Hash) (code : List UInt8) : codeOk a codeHash code →
    FieldChange a o (.code a (o.getCode b) o.account.codeHash) (o.setCode codeHash (some code))
  | storage (key value : Hash) {prev : Hash} : o.cachedSlot key = some prev →
    FieldChange a o (.storage a key prev) (o.setState key value)
  | suicide :
    FieldChange a o (.suicide a o.suicided o.account.balance)
      { o.setBalance 0 with suicided := true }

/-- A single change of the StateDB, with the entries it appends to the journal.  `resetOk`
says which objects may be replaced. -/
inductive Change : StateDB → List JournalEntry → StateDB → Prop where
  /-- an account is loaded, or is there already -/
  | load {db : StateDB} {a : Address} {o : StateObject} :
    db.find? b a = some o → Change db [] (db.setStateObject a o)
  /-- a slot is loaded -/
  | slot {db : StateDB} {a : Address} {o : StateObject} {key : Hash} :
    db.stateObjects a = some o → o.originStorage key = none →
    Change db [] (db.setStateObject a
      { o with originStorage := update o.originStorage key (some (b.storage a key)) })
  | create {db : StateDB} {a : Address} : db.find? b a = none →
    Change db [.createObject a]
      ((db.append (.createObject a)).setStateObject a (newObject emptyAccount))
  | reset {db : StateDB} {a : Address} {prev : StateObject} :
    db.find? b a = some prev → resetOk db a prev →
    Change db [.resetObject a prev] ((db.append (.resetObject a prev)).setStateObject a
      ((newObject emptyAccount).setBalance prev.account.balance))
  | field {db : StateDB} {a : Address} {o o' : StateObject} {e : JournalEntry} :
    db.stateObjects a = some o → FieldChange b codeOk a o e o' →
    Change db [e] ((db.append e).setStateObject a o')
  | refund {db : StateDB} (gas : UInt64) :
    Change db [.refund db.refund] { db.append (.refund db.refund) with refund := gas }
  | log {db : StateDB} (log : Log) :
    Change db [.addLog] { db.append .addLog with logs := db.logs ++ [log] }
  | address {db : StateDB} {a : Address} : db.accessList.addresses a = none →
    Change db [.accessListAddAccount a]
      { db.append (.accessListAddAccount a) with accessList := (db.accessList.addAddress a).1 }
  | accessSlot {db : StateDB} {a : Address} {idx : Int} {slot : Hash} :
    db.accessList.addresses a = some idx →
    idx = -1 ∨ slot ∉ db.accessList.slots.getD idx.toNat [] →
    Change db [.accessListAddSlot a slot]
      { db.append (.accessListAddSlot a slot) with
        accessList := (db.accessList.addSlot a slot).1 }

/-- Several changes; the entries are newest first. -/
inductive Changes (db : StateDB) : List JournalEntry → StateDB → Prop where
  | refl : Changes db [] db
  | tail {es es' : List JournalEntry} {db₁ db₂ : StateDB} :
    Changes db es db₁ → Change b codeOk resetOk db₁ es' db₂ → Changes db (es' ++ es) db₂

variable {b codeOk resetOk} {db db' : StateDB} {es : List JournalEntry}

theorem Changes.single (h : Change b codeOk resetOk db es db') :
    Changes b codeOk resetOk db es db' := by
  have htail := Changes.tail .refl h
  rwa [List.append_nil] at htail

theorem Changes.trans {db'' : StateDB} {es' : List JournalEntry}
    (h : Changes b codeOk resetOk db es db') (h' : Changes b codeOk resetOk db' es' db'') :
    Changes b codeOk resetOk db (es' ++ es) db'' := by
  induction h' with
  | refl => exact h
  | tail _ hchange ih =>
    rw [List.append_assoc]
    exact .tail ih hchange

theorem Change.journal (h : Change b codeOk resetOk db es db') :
    db'.journal = es ++ db.journal ∧ db'.validRevisions = db.validRevisions ∧
      db'.nextRevisionID = db.nextRevisionID := by
  cases h <;> exact ⟨rfl, rfl, rfl⟩

theorem Changes.journal (h : Changes b codeOk resetOk db es db') :
    db'.journal = es ++ db.journal ∧ db'.validRevisions = db.validRevisions ∧
      db'.nextRevisionID = db.nextRevisionID := by
  induction h with
  | refl => exact ⟨rfl, rfl, rfl⟩
  | tail _ hchange ih =>
    obtain ⟨hjournal, hvalid, hnext⟩ := hchange.journal
    refine ⟨?_, hvalid.trans ih.2.1, hnext.trans ih.2.2⟩
    rw [hjournal, ih.1, List.append_assoc]

/-! ## Calls are changes -/

variable (b codeOk resetOk) in
/-- The call is made of changes. -/
def ByChanges (db db' : StateDB) : Prop := ∃ es, Changes b codeOk resetOk db es db'

namespace ByChanges

theorem refl : ByChanges b codeOk resetOk db db := ⟨[], .refl⟩

theorem single (h : Change b codeOk resetOk db es db') : ByChanges b codeOk resetOk db db' :=
  ⟨es, .single h⟩

theorem trans {db'' : StateDB} (h : ByChanges b codeOk resetOk db db')
    (h' : ByChanges b codeOk resetOk db' db'') : ByChanges b codeOk resetOk db db'' := by
  obtain ⟨es, hes⟩ := h
  obtain ⟨es', hes'⟩ := h'
  exact ⟨es' ++ es, hes.trans hes'⟩

variable (a : Address) {e : JournalEntry} {o' o : StateObject}

theorem touch : ByChanges b codeOk resetOk db (db.touch b a) := by
  unfold StateDB.touch
  split
  · exact single (.load ‹_›)
  · exact refl

theorem getOrNew : ByChanges b codeOk resetOk db (db.getOrNew b a).1 := by
  unfold StateDB.getOrNew
  cases hfind : db.find? b a with
  | some => exact single (.load hfind)
  | none =>
    simp only [createObject, hfind]
    exact single (.create hfind)

theorem getOrNew_field (h : FieldChange b codeOk a (db.getOrNew b a).2 e o') :
    ByChanges b codeOk resetOk db (((db.getOrNew b a).1.append e).setStateObject a o') :=
  (getOrNew a).trans (single (.field (db.getOrNew_object b a) h))

theorem addBalance (amount : Int) : ByChanges b codeOk resetOk db (db.addBalance b a amount) := by
  rw [addBalance_eq]
  split
  · exact getOrNew a
  · exact getOrNew_field a (.balance _)

theorem getCommittedState (h : db.stateObjects a = some o) (key : Hash) :
    ByChanges b codeOk resetOk db (db.setStateObject a (o.getCommittedState b a key).2) ∧
      (o.getCommittedState b a key).2.originStorage key = some (o.getCommittedState b a key).1 ∧
      (o.getCommittedState b a key).2.dirtyStorage = o.dirtyStorage := by
  unfold StateObject.getCommittedState
  split
  · rename_i value horigin
    exact ⟨single (.load (find?_of_stateObjects b db a h)), horigin, rfl⟩
  · rename_i horigin
    exact ⟨single (.slot h horigin), update_self .., rfl⟩

theorem getState (h : db.stateObjects a = some o) (key : Hash) :
    ByChanges b codeOk resetOk db (db.setStateObject a (o.getState b a key).2) ∧
      (o.getState b a key).2.cachedSlot key = some (o.getState b a key).1 := by
  unfold StateObject.getState StateObject.cachedSlot
  split
  · rename_i value hdirty
    refine ⟨single (.load (find?_of_stateObjects b db a h)), ?_⟩
    rw [hdirty, Option.some_or]
  rename_i hdirty
  obtain ⟨hchanges, horigin, hsame⟩ := @getCommittedState b codeOk resetOk db a o h key
  refine ⟨hchanges, ?_⟩
  rw [hsame, hdirty, Option.none_or, horigin]

theorem setStateObject_twice (o o' : StateObject) :
    (db.setStateObject a o).setStateObject a o' = db.setStateObject a o' := by
  simp [setStateObject, update_idem]

theorem loaded {a : Address} (hfind : db.find? b a = some o)
    (h : (db.setStateObject a o).stateObjects a = some o →
      ByChanges b codeOk resetOk (db.setStateObject a o)
        ((db.setStateObject a o).setStateObject a o')) :
    ByChanges b codeOk resetOk db (db.setStateObject a o') := by
  have hobject : (db.setStateObject a o).stateObjects a = some o := by
    rw [stateObjects_set, if_pos rfl]
  have hchanges := (single (.load hfind)).trans (h hobject)
  rwa [setStateObject_twice] at hchanges

theorem set_field {db₁ : StateDB} (hset : ByChanges b codeOk resetOk db (db₁.setStateObject a o))
    (h : FieldChange b codeOk a o e o') :
    ByChanges b codeOk resetOk db ((db₁.append e).setStateObject a o') := by
  have hobject : (db₁.setStateObject a o).stateObjects a = some o := by
    rw [stateObjects_set, if_pos rfl]
  rw [← setStateObject_twice a o o']
  exact hset.trans (single (.field hobject h))

theorem setState (key value : Hash) :
    ByChanges b codeOk resetOk db (db.setState b a key value) := by
  rw [setState_eq]
  obtain ⟨hread, hslot⟩ := @getState b codeOk resetOk _ a _ (db.getOrNew_object b a) key
  split
  · exact (getOrNew a).trans hread
  · exact set_field a ((getOrNew a).trans hread) (.storage key value hslot)

theorem suicide : ByChanges b codeOk resetOk db (db.suicide b a) := by
  unfold StateDB.suicide
  split
  · exact refl
  · rename_i o hfind
    exact set_field a (single (.load hfind)) .suicide

theorem createAccount (h : ∀ prev, db.find? b a = some prev → resetOk db a prev) :
    ByChanges b codeOk resetOk db (db.createAccount b a) := by
  unfold StateDB.createAccount
  cases hfind : db.find? b a with
  | some prev =>
    simp only [createObject, hfind]
    rw [setStateObject_twice]
    exact single (.reset hfind (h prev hfind))
  | none =>
    simp only [createObject, hfind]
    exact single (.create hfind)

theorem addAddressToAccessList : ByChanges b codeOk resetOk db (db.addAddressToAccessList a) := by
  cases haddr : db.accessList.addresses a with
  | some =>
    simp only [StateDB.addAddressToAccessList, AccessList.addAddress, haddr]
    exact refl
  | none =>
    have hadd : ByChanges b codeOk resetOk db _ := single (.address haddr)
    simp only [AccessList.addAddress, haddr] at hadd
    simp only [StateDB.addAddressToAccessList, AccessList.addAddress, haddr]
    exact hadd

theorem addSlot {idx : Int} (h : db.accessList.addresses a = some idx) (slot : Hash) :
    ByChanges b codeOk resetOk db (db.addSlotToAccessList a slot) := by
  by_cases hpresent : idx = -1 ∨ slot ∉ db.accessList.slots.getD idx.toNat []
  · have hadd : ByChanges b codeOk resetOk db _ := single (.accessSlot h hpresent)
    unfold addSlotToAccessList
    have hadded : (db.accessList.addSlot a slot).2 = (false, true) := by
      simp only [AccessList.addSlot, h]
      split
      · rfl
      · rename_i hslots
        rw [if_neg (hpresent.resolve_left hslots)]
    generalize db.accessList.addSlot a slot = r at hadd hadded
    obtain ⟨_, _⟩ := r
    subst hadded
    exact hadd
  · rw [not_or, not_not] at hpresent
    have hsame : db.accessList.addSlot a slot = (db.accessList, false, false) := by
      simp only [AccessList.addSlot, h]
      rw [if_neg hpresent.1, if_pos hpresent.2]
    unfold addSlotToAccessList
    rw [hsame]
    exact refl

theorem addSlotToAccessList (slot : Hash) :
    ByChanges b codeOk resetOk db (db.addSlotToAccessList a slot) := by
  cases haddr : db.accessList.addresses a with
  | some => exact addSlot a haddr slot
  | none =>
    -- the address and the slot are journaled one after the other
    have hadd : ByChanges b codeOk resetOk db _ := single (.address haddr)
    refine hadd.trans ?_
    have hslot := @addSlot b codeOk resetOk
      { db.append (.accessListAddAccount a) with accessList := (db.accessList.addAddress a).1 }
      a (-1) (by simp [AccessList.addAddress, haddr]) slot
    refine cast (congrArg _ ?_) hslot
    simp [StateDB.addSlotToAccessList, AccessList.addSlot, AccessList.addAddress, haddr,
      StateDB.append, update_idem]

end ByChanges

variable (codeOk resetOk) in
/-- The code that a call sets and the objects it replaces are as the parameters say. -/
def StateDB.Call.Meets (keccak : List UInt8 → Hash) (b : Backend) (db : StateDB) : Call → Prop
  | .setCode a code => codeOk a (keccak code) code
  | .createAccount a => ∀ prev, db.find? b a = some prev → resetOk db a prev
  | _ => True

/-- What a call does. -/
theorem exec_cases {keccak : List UInt8 → Hash} {c : StateDB.Call}
    (h : db.exec keccak b c = some db') (hmeets : c.Meets codeOk resetOk keccak b db) :
    ByChanges b codeOk resetOk db db' ∨ (c = .snapshot ∧ db' = db.snapshot.1) ∨
      ∃ revid, c = .revertToSnapshot revid ∧ db.revertToSnapshot b revid = some db' := by
  cases c with
  | addBalance a amount =>
    cases h
    exact .inl (.addBalance a amount)
  | subBalance a amount =>
    cases h
    rw [subBalance_eq_addBalance]
    exact .inl (.addBalance a (-amount))
  | setNonce a nonce =>
    cases h
    exact .inl (.getOrNew_field a (.nonce nonce))
  | setCode a code =>
    cases h
    exact .inl (.getOrNew_field a (.code (keccak code) code hmeets))
  | setState a key value =>
    cases h
    exact .inl (.setState a key value)
  | suicide a =>
    cases h
    exact .inl (.suicide a)
  | createAccount a =>
    cases h
    exact .inl (.createAccount a hmeets)
  | addLog =>
    cases h
    exact .inl (.single (.log _))
  | addRefund =>
    cases h
    exact .inl (.single (.refund _))
  | subRefund =>
    simp only [exec, subRefund] at h
    split at h
    · cases h
    · cases h
      exact .inl (.single (.refund _))
  | addAddressToAccessList a =>
    cases h
    exact .inl (.addAddressToAccessList a)
  | addSlotToAccessList a slot =>
    cases h
    exact .inl (.addSlotToAccessList a slot)
  | snapshot =>
    cases h
    exact .inr (.inl ⟨rfl, rfl⟩)
  | revertToSnapshot revid => exact .inr (.inr ⟨revid, rfl, h⟩)
  | load a =>
    cases h
    exact .inl (.touch a)
  | loadState a key =>
    cases h
    unfold loadState
    split
    · exact .inl (.loaded ‹_› fun hobject => (ByChanges.getState a hobject key).1)
    · exact .inl .refl
  | loadCommittedState a key =>
    cases h
    unfold loadCommittedState
    split
    · exact .inl (.loaded ‹_› fun hobject => (ByChanges.getCommittedState a hobject key).1)
    · exact .inl .refl

end

/-! ## Commit, object by object -/

namespace StateObject

/-- What a commit writes for an object. -/
def flush (k : Keeper) (refuses : Refusal) (a : Address) (o : StateObject) :
    Action Backend BackendError Unit :=
  if o.suicided then deleteAccount k refuses a
  else do
    o.writeCode
    setAccount k refuses a o.account
    o.writeStorage a

/-- The object after it has been committed. -/
def flushed (o : StateObject) : StateObject :=
  if o.suicided then o
  else { o with
    transientStorage := fun key => (o.committedSlot key).or (o.transientStorage key) }

theorem run_commit (k : Keeper) (refuses : Refusal) (a : Address) (o : StateObject) (b : Backend) :
    (o.commit k refuses a).run b = match (o.flush k refuses a).run b with
      | (b', .ok _) => (b', .ok o.flushed)
      | (b', .error e) => (b', .error e) := by
  unfold commit flush flushed
  split
  · rcases hrun : (deleteAccount k refuses a).run b with ⟨_, e | ⟨⟩⟩
    · rw [run_bind_of_error hrun]
    · rw [run_bind_of_ok hrun]
      rfl
  rcases hcode : o.writeCode.run b with ⟨b₁, e | ⟨⟩⟩
  · rw [run_bind_of_error hcode, run_bind_of_error hcode]
  rw [run_bind_of_ok hcode, run_bind_of_ok hcode]
  rcases hset : (setAccount k refuses a o.account).run b₁ with ⟨_, _ | ⟨⟩⟩
  · rw [run_bind_of_error hset, run_bind_of_error hset]
  · rw [run_bind_of_ok hset, run_bind_of_ok hset]
    rfl

end StateObject

namespace StateDB

variable (k : Keeper) (refuses : Refusal) {db : StateDB} {a : Address}

theorem run_commitAll_of_none (h : db.stateObjects a = none) (rest : List Address) (b : Backend) :
    (commitAll k refuses (a :: rest)).run (db, b) = (commitAll k refuses rest).run (db, b) := by
  rw [commitAll, run_gets_bind]
  simp only [h]

theorem run_commitAll_of_some {o : StateObject} (h : db.stateObjects a = some o)
    (rest : List Address) (b : Backend) : (commitAll k refuses (a :: rest)).run (db, b) =
      match (o.flush k refuses a).run b with
      | (b', .ok _) => (commitAll k refuses rest).run (db.setStateObject a o.flushed, b')
      | (b', .error e) => ((db, b'), .error e) := by
  have hcommit := o.run_commit k refuses a b
  rw [commitAll, run_gets_bind]
  simp only [h]
  rcases hrun : (o.flush k refuses a).run b with ⟨_, _ | ⟨⟩⟩
  · rw [hrun] at hcommit
    rw [run_bind_of_error (run_zoom_of_error (s := (db, b)) _ _ _ hcommit)]
    rfl
  · rw [hrun] at hcommit
    rw [run_bind_of_ok (run_zoom_of_ok (s := (db, b)) _ _ _ hcommit),
      run_modify_bind]

end StateDB

theorem StateObject.writeCode_cases (o : StateObject) (b : Backend) :
    (o.writeCode.run b = (b, .ok ()) ∧ ∀ c, o.code = some c → o.dirtyCode = false) ∨
      ∃ c, o.code = some c ∧ o.writeCode.run b = ({ b with
        code := update b.code o.account.codeHash (if c = [] then none else some c) }, .ok ()) := by
  unfold writeCode
  split
  · rename_i c hcode _
    exact .inr ⟨c, hcode, rfl⟩
  rename_i hnot
  refine .inl ⟨rfl, fun c hcode => ?_⟩
  cases hdirty : o.dirtyCode with
  | false => rfl
  | true => exact absurd hdirty (hnot c hcode)

theorem StateObject.flush_code (o : StateObject) (k : Keeper) (refuses : Refusal) (a : Address)
    (b : Backend) : ((o.flush k refuses a).run b).1.code =
      if o.suicided then b.code else (o.writeCode.run b).1.code := by
  unfold flush
  split
  · exact keeps_code_deleteAccount k refuses a b
  have hrest : (do
      setAccount k refuses a o.account
      o.writeStorage a : Action Backend BackendError Unit).Keeps SameCode :=
    .bind .trans (keeps_code_setAccount k refuses a o.account) fun _ =>
      .modify fun b => .refl b
  rcases o.writeCode_cases b with ⟨hrun, -⟩ | ⟨_, -, hrun⟩
  · rw [run_bind_of_ok hrun, hrun]
    exact hrest _
  · rw [run_bind_of_ok hrun, hrun]
    exact hrest _

end HyperPax.Evm
