/-
  Evm/StateDB.lean --- the journaled account cache between the EVM and the keeper.

  Source: x/evm/statedb/{statedb,state_object,journal,access_list,config}.go.

  A StateDB keeps one state object per account it has looked at.  Every change
  appends a journal entry that can undo it; an account is dirty when some entry of the
  journal names it, and only dirty accounts are written back by `commit`.  The map of
  dirty counts in the source counts exactly those entries, so it is computed here from
  the journal.  The journal is kept newest first.

  Reading an account loads it into the cache.  The functions below therefore come in
  pairs: what a lookup returns (`find?`) and the cache it leaves (`touch`).
-/
import HyperPax.Evm.Backend

set_option autoImplicit false

namespace HyperPax.Evm

open Lib Function

/-! ## State objects -/

/-- A storage cache: the slots it knows. -/
abbrev Storage : Type := Hash → Option Hash

/-- `stateObject`, kept under its address. -/
structure StateObject where
  account : Account
  code : Option (List UInt8)
  originStorage : Storage
  dirtyStorage : Storage
  transientStorage : Storage
  dirtyCode : Bool
  suicided : Bool

/-- `newObject`. -/
def newObject (account : Account) : StateObject where
  account := account
  code := none
  originStorage := fun _ => none
  dirtyStorage := fun _ => none
  transientStorage := fun _ => none
  dirtyCode := false
  suicided := false

/-- The account `createObject` starts from. -/
def emptyAccount : Account := ⟨0, 0, emptyCodeHash⟩

namespace StateObject

/-- `setBalance`. -/
def setBalance (o : StateObject) (amount : Int) : StateObject :=
  { o with account := { o.account with balance := amount } }

/-- `setNonce`. -/
def setNonce (o : StateObject) (nonce : UInt64) : StateObject :=
  { o with account := { o.account with nonce := nonce } }

/-- `setCode`. -/
def setCode (o : StateObject) (codeHash : Hash) (code : Option (List UInt8)) : StateObject :=
  { o with
    code := code
    account := { o.account with codeHash := codeHash }
    dirtyCode := true }

/-- `setState`. -/
def setState (o : StateObject) (key value : Hash) : StateObject :=
  { o with dirtyStorage := update o.dirtyStorage key (some value) }

/-- `Code`: the code at hand, or the one stored under the code hash. -/
def getCode (b : Backend) (o : StateObject) : Option (List UInt8) :=
  match o.code with
  | some code => some code
  | none => if o.account.codeHash = emptyCodeHash then none else b.code o.account.codeHash

/-- `GetCommittedState`: the value, and the object with the slot cached. -/
def getCommittedState (b : Backend) (a : Address) (o : StateObject) (key : Hash) :
    Hash × StateObject :=
  match o.originStorage key with
  | some value => (value, o)
  | none =>
    let value := b.storage a key
    (value, { o with originStorage := update o.originStorage key (some value) })

/-- `GetState`. -/
def getState (b : Backend) (a : Address) (o : StateObject) (key : Hash) : Hash × StateObject :=
  match o.dirtyStorage key with
  | some value => (value, o)
  | none => o.getCommittedState b a key

end StateObject

/-! ## Journal, logs, access list -/

/-- The entries of `journal.go`, each with what it takes to undo it. -/
inductive JournalEntry where
  | createObject (account : Address)
  | resetObject (account : Address) (prev : StateObject)
  | suicide (account : Address) (prev : Bool) (prevBalance : Int)
  | balance (account : Address) (prev : Int)
  | nonce (account : Address) (prev : UInt64)
  | storage (account : Address) (key prevValue : Hash)
  | code (account : Address) (prevCode : Option (List UInt8)) (prevHash : Hash)
  | refund (prev : UInt64)
  | addLog
  | accessListAddAccount (address : Address)
  | accessListAddSlot (address : Address) (slot : Hash)

/-- `Dirtied`.  A reset does not count: the entry that created the object does. -/
def JournalEntry.dirtied : JournalEntry → Option Address
  | .createObject a => some a
  | .suicide a _ _ => some a
  | .balance a _ => some a
  | .nonce a _ => some a
  | .storage a _ _ => some a
  | .code a _ _ => some a
  | .resetObject _ _ => none
  | .refund _ => none
  | .addLog => none
  | .accessListAddAccount _ => none
  | .accessListAddSlot _ _ => none

/-- `TxConfig`. -/
structure TxConfig where
  blockHash : Hash
  txHash : Hash
  txIndex : Nat
  logIndex : Nat

/-- `ethtypes.Log`, with the fields the StateDB fills in. -/
structure Log where
  address : Address
  topics : List Hash
  data : List UInt8
  txHash : Hash
  blockHash : Hash
  txIndex : Nat
  index : Nat

/-- `accessList`: for each address the index of its slots, -1 when it has none. -/
structure AccessList where
  addresses : Address → Option Int
  slots : List (List Hash)

namespace AccessList

/-- `AddAddress`. -/
def addAddress (al : AccessList) (a : Address) : AccessList × Bool :=
  match al.addresses a with
  | some _ => (al, false)
  | none => ({ al with addresses := update al.addresses a (some (-1)) }, true)

/-- `AddSlot`: whether the address and whether the slot were added. -/
def addSlot (al : AccessList) (a : Address) (slot : Hash) : AccessList × Bool × Bool :=
  let fresh : AccessList :=
    { addresses := update al.addresses a (some al.slots.length)
      slots := al.slots ++ [[slot]] }
  match al.addresses a with
  | none => (fresh, true, true)
  | some idx =>
    if idx = -1 then (fresh, false, true)
    else
      let slotmap := al.slots.getD idx.toNat []
      if slot ∈ slotmap then (al, false, false)
      else ({ al with slots := al.slots.set idx.toNat (slot :: slotmap) }, false, true)

/-- `DeleteSlot`. -/
def deleteSlot (al : AccessList) (a : Address) (slot : Hash) : AccessList :=
  match al.addresses a with
  | none => al
  | some idx =>
    let slotmap := (al.slots.getD idx.toNat []).erase slot
    if slotmap = [] then
      { addresses := update al.addresses a (some (-1))
        slots := al.slots.take idx.toNat }
    else { al with slots := al.slots.set idx.toNat slotmap }

/-- `DeleteAddress`. -/
def deleteAddress (al : AccessList) (a : Address) : AccessList :=
  { al with addresses := update al.addresses a none }

end AccessList

/-! ## The StateDB -/

/-- `StateDB`, without the context of its keeper. -/
structure StateDB where
  stateObjects : Address → Option StateObject
  journal : List JournalEntry
  validRevisions : List (Nat × Nat)
  nextRevisionID : Nat
  txConfig : TxConfig
  refund : UInt64
  logs : List Log
  accessList : AccessList

namespace StateDB

/-- `New`. -/
def new (txConfig : TxConfig) : StateDB where
  stateObjects := fun _ => none
  journal := []
  validRevisions := []
  nextRevisionID := 0
  txConfig := txConfig
  refund := 0
  logs := []
  accessList := ⟨fun _ => none, []⟩

/-- `journal.append`. -/
def append (db : StateDB) (e : JournalEntry) : StateDB :=
  { db with journal := e :: db.journal }

/-- `setStateObject`. -/
def setStateObject (db : StateDB) (a : Address) (o : StateObject) : StateDB :=
  { db with stateObjects := update db.stateObjects a (some o) }

/-- What `getStateObject` returns: the live object, or the account in the keeper. -/
def find? (b : Backend) (db : StateDB) (a : Address) : Option StateObject :=
  match db.stateObjects a with
  | some o => some o
  | none => (b.getAccount a).map newObject

/-- The cache `getStateObject` leaves. -/
def touch (b : Backend) (db : StateDB) (a : Address) : StateDB :=
  match db.find? b a with
  | some o => db.setStateObject a o
  | none => db

/-- `Exist`. -/
def exist (b : Backend) (db : StateDB) (a : Address) : Bool :=
  (db.find? b a).isSome

/-- `GetBalance`. -/
def getBalance (b : Backend) (db : StateDB) (a : Address) : Int :=
  match db.find? b a with
  | some o => o.account.balance
  | none => 0

/-- `createObject`: an object that was there is put into the journal. -/
def createObject (b : Backend) (db : StateDB) (a : Address) : StateDB :=
  let entry := match db.find? b a with
    | none => .createObject a
    | some prev => .resetObject a prev
  (db.append entry).setStateObject a (newObject emptyAccount)

/-- `getOrNewStateObject`. -/
def getOrNew (b : Backend) (db : StateDB) (a : Address) : StateDB × StateObject :=
  match db.find? b a with
  | some o => (db.setStateObject a o, o)
  | none => (db.createObject b a, newObject emptyAccount)

/-- `CreateAccount`: the balance is carried over. -/
def createAccount (b : Backend) (db : StateDB) (a : Address) : StateDB :=
  match db.find? b a with
  | some prev =>
    (db.createObject b a).setStateObject a
      ((newObject emptyAccount).setBalance prev.account.balance)
  | none => db.createObject b a

/-- `SetBalance` of a state object: journaled. -/
def setBalance (db : StateDB) (a : Address) (o : StateObject) (amount : Int) : StateDB :=
  (db.append (.balance a o.account.balance)).setStateObject a (o.setBalance amount)

/-- `AddBalance` of an amount that may be negative; zero only loads the account. -/
def addBalance (b : Backend) (db : StateDB) (a : Address) (amount : Int) : StateDB :=
  let (db, o) := db.getOrNew b a
  if amount = 0 then db else db.setBalance a o (o.account.balance + amount)

/-- `SubBalance`.  Nothing is checked. -/
def subBalance (b : Backend) (db : StateDB) (a : Address) (amount : Int) : StateDB :=
  let (db, o) := db.getOrNew b a
  if amount = 0 then db else db.setBalance a o (o.account.balance - amount)

/-- `SetNonce`. -/
def setNonce (b : Backend) (db : StateDB) (a : Address) (nonce : UInt64) : StateDB :=
  let (db, o) := db.getOrNew b a
  (db.append (.nonce a o.account.nonce)).setStateObject a (o.setNonce nonce)

/-- `SetCode`, under the hash `keccak` gives the code. -/
def setCode (keccak : List UInt8 → Hash) (b : Backend) (db : StateDB) (a : Address)
    (code : List UInt8) : StateDB :=
  let (db, o) := db.getOrNew b a
  (db.append (.code a (o.getCode b) o.account.codeHash)).setStateObject a
    (o.setCode (keccak code) (some code))

/-- `SetState`: an unchanged value is not journaled. -/
def setState (b : Backend) (db : StateDB) (a : Address) (key value : Hash) : StateDB :=
  let (db, o) := db.getOrNew b a
  let (prev, o) := o.getState b a key
  if prev = value then db.setStateObject a o
  else (db.append (.storage a key prev)).setStateObject a (o.setState key value)

/-- `Suicide`. -/
def suicide (b : Backend) (db : StateDB) (a : Address) : StateDB :=
  match db.find? b a with
  | none => db
  | some o =>
    (db.append (.suicide a o.suicided o.account.balance)).setStateObject a
      { o.setBalance 0 with suicided := true }

/-- `AddLog`. -/
def addLog (db : StateDB) (address : Address) (topics : List Hash) (data : List UInt8) : StateDB :=
  let log : Log :=
    { address, topics, data
      txHash := db.txConfig.txHash
      blockHash := db.txConfig.blockHash
      txIndex := db.txConfig.txIndex
      index := db.txConfig.logIndex + db.logs.length }
  { db.append .addLog with logs := db.logs ++ [log] }

/-- `AddRefund`. -/
def addRefund (db : StateDB) (gas : UInt64) : StateDB :=
  { db.append (.refund db.refund) with refund := db.refund + gas }

/-- `SubRefund`; `none` is the panic below zero. -/
def subRefund (db : StateDB) (gas : UInt64) : Option StateDB :=
  if db.refund < gas then none
  else some { db.append (.refund db.refund) with refund := db.refund - gas }

/-- `AddAddressToAccessList`. -/
def addAddressToAccessList (db : StateDB) (a : Address) : StateDB :=
  let (al, added) := db.accessList.addAddress a
  let db := { db with accessList := al }
  if added then db.append (.accessListAddAccount a) else db

/-- `AddSlotToAccessList`. -/
def addSlotToAccessList (db : StateDB) (a : Address) (slot : Hash) : StateDB :=
  let (al, addrAdded, slotAdded) := db.accessList.addSlot a slot
  let db := { db with accessList := al }
  let db := if addrAdded then db.append (.accessListAddAccount a) else db
  if slotAdded then db.append (.accessListAddSlot a slot) else db

/-! ## Snapshots -/

/-- Change the object of an account, loading it first. -/
def modifyObject (b : Backend) (db : StateDB) (a : Address) (f : StateObject → StateObject) :
    StateDB :=
  match db.find? b a with
  | some o => db.setStateObject a (f o)
  | none => db

/-- `Revert` of one journal entry. -/
def undo (b : Backend) (db : StateDB) : JournalEntry → StateDB
  | .createObject a => { db with stateObjects := update db.stateObjects a none }
  | .resetObject a prev => db.setStateObject a prev
  | .suicide a prev prevBalance =>
    db.modifyObject b a fun o => { o.setBalance prevBalance with suicided := prev }
  | .balance a prev => db.modifyObject b a fun o => o.setBalance prev
  | .nonce a prev => db.modifyObject b a fun o => o.setNonce prev
  | .storage a key prevValue => db.modifyObject b a fun o => o.setState key prevValue
  | .code a prevCode prevHash => db.modifyObject b a fun o => o.setCode prevHash prevCode
  | .refund prev => { db with refund := prev }
  | .addLog => { db with logs := db.logs.dropLast }
  | .accessListAddAccount a => { db with accessList := db.accessList.deleteAddress a }
  | .accessListAddSlot a slot => { db with accessList := db.accessList.deleteSlot a slot }

/-- `journal.Revert`: the entries past the first `index`, newest first. -/
def revert (b : Backend) (db : StateDB) (index : Nat) : StateDB :=
  let n := db.journal.length - index
  { (db.journal.take n).foldl (undo b) db with journal := db.journal.drop n }

/-- `Snapshot`. -/
def snapshot (db : StateDB) : StateDB × Nat :=
  ({ db with
      validRevisions := db.validRevisions ++ [(db.nextRevisionID, db.journal.length)]
      nextRevisionID := db.nextRevisionID + 1 },
    db.nextRevisionID)

/-- `RevertToSnapshot`; `none` is the panic on an id that is not valid. -/
def revertToSnapshot (b : Backend) (db : StateDB) (revid : Nat) : Option StateDB :=
  let idx := db.validRevisions.findIdx fun r => revid ≤ r.1
  match db.validRevisions[idx]? with
  | none => none
  | some (id, index) =>
    if id ≠ revid then none
    else some { db.revert b index with validRevisions := db.validRevisions.take idx }

/-! ## Commit -/

/-- `sortedDirties`: each dirty address once, in byte order. -/
def sortedDirties (db : StateDB) : List Address :=
  ((db.journal.filterMap JournalEntry.dirtied).dedup).insertionSort fun a b => a.bytes ≤ b.bytes

/-- An account that the next commit writes back. -/
def Dirty (db : StateDB) (a : Address) : Prop :=
  a ∈ db.journal.filterMap JournalEntry.dirtied

instance (db : StateDB) (a : Address) : Decidable (db.Dirty a) :=
  inferInstanceAs (Decidable (a ∈ db.journal.filterMap JournalEntry.dirtied))

end StateDB

namespace StateObject

/-- The value a commit writes for a slot; none for a slot that is not dirty or whose value
is already in the store. -/
def committedSlot (o : StateObject) (key : Hash) : Option Hash :=
  match o.dirtyStorage key, o.transientStorage key with
  | none, _ => none
  | some value, some transient => if transient = value then none else some value
  | some value, none => if value = (o.originStorage key).getD 0 then none else some value

/-- The code of the object, when it was set. -/
def writeCode (o : StateObject) : Action Backend BackendError Unit :=
  match o.code, o.dirtyCode with
  | some code, true => Evm.setCode o.account.codeHash code
  | _, _ => pure ()

/-- The dirty slots of the object. -/
def writeStorage (a : Address) (o : StateObject) : Action Backend BackendError Unit :=
  .modify fun b =>
    { b with
      storage := update b.storage a fun key =>
        (o.committedSlot key).getD (b.storage a key) }

/-- The part of `Commit` for one object; the written slots are remembered. -/
def commit (k : Keeper) (refuses : Refusal) (a : Address) (o : StateObject) :
    Action Backend BackendError StateObject :=
  if o.suicided then do
    deleteAccount k refuses a
    return o
  else do
    o.writeCode
    setAccount k refuses a o.account
    o.writeStorage a
    return { o with
      transientStorage := fun key => (o.committedSlot key).or (o.transientStorage key) }

end StateObject

namespace StateDB

/-- `Commit`, over the dirty addresses still to be written. -/
def commitAll (k : Keeper) (refuses : Refusal) :
    List Address → Action (StateDB × Backend) BackendError Unit
  | [] => pure ()
  | a :: rest => do
    let found ← .gets fun s => s.1.stateObjects a
    match found with
    | none => commitAll k refuses rest
    | some o => do
      let o ← Action.zoom Prod.snd (fun s b => (s.1, b)) id (o.commit k refuses a)
      .modify fun s => (s.1.setStateObject a o, s.2)
      commitAll k refuses rest

/-- `Commit`. -/
def commit (k : Keeper) (refuses : Refusal) : Action (StateDB × Backend) BackendError Unit := do
  let dirties ← .gets fun s => s.1.sortedDirties
  commitAll k refuses dirties

end StateDB

end HyperPax.Evm
