/-
  Evm/Balances.lean --- what the balances will be after the next commit.

  The StateDB and the bank are two ledgers.  After a commit the bank holds, for a
  dirty account, the balance of its state object, and for a clean one what it held
  before.  `Reflects b db l` says that this is the ledger `l`.  The lemmas below say
  under which condition each operation of the StateDB, and each change of the bank
  behind its back, takes `l` where it should: an account that becomes dirty must be in
  step with the bank at that moment (`Synced`), and an account whose bank balance
  changes must be clean.
-/
import HyperPax.Evm.StateDB

set_option autoImplicit false

namespace HyperPax.Evm

open Lib Action StateDB List Function StateObject

namespace StateDB

variable (b : Backend) (db : StateDB) (a x : Address)

/-! ## Dirty accounts and cached objects -/

variable (key value : Hash) (e : JournalEntry) (n : Int) {o : StateObject}

@[simp] theorem dirty_append : (db.append e).Dirty x ↔ e.dirtied = some x ∨ db.Dirty x := by
  unfold Dirty append
  rw [filterMap_cons]
  cases he : e.dirtied with
  | none => simp
  | some => simp [eq_comm]

@[simp] theorem dirty_setStateObject (o : StateObject) :
    (db.setStateObject a o).Dirty x ↔ db.Dirty x := .rfl

@[simp] theorem stateObjects_append : (db.append e).stateObjects = db.stateObjects := rfl

theorem stateObjects_set (o : StateObject) :
    (db.setStateObject a o).stateObjects x = if x = a then some o else db.stateObjects x := by
  simp [setStateObject, update_apply]

theorem find?_of_stateObjects (h : db.stateObjects a = some o) : db.find? b a = some o := by
  simp [find?, h]

theorem getBalance_of_stateObjects (h : db.stateObjects a = some o) :
    db.getBalance b a = o.account.balance := by
  simp [getBalance, find?, h]

/-- No account has been self-destructed in this transaction. -/
def NoneSuicided (db : StateDB) : Prop :=
  ∀ a o, db.stateObjects a = some o → o.suicided = false

section

variable {db : StateDB} (h : db.NoneSuicided)

include h

theorem NoneSuicided.find? {b : Backend} {a : Address} (ho : db.find? b a = some o) :
    o.suicided = false := by
  unfold StateDB.find? at ho
  split at ho
  · rename_i o' hcached
    cases ho
    exact h a o hcached
  · obtain ⟨_, -, rfl⟩ := Option.map_eq_some_iff.mp ho
    rfl

theorem NoneSuicided.setStateObject {a : Address} (ho : o.suicided = false) :
    (db.setStateObject a o).NoneSuicided := by
  intro x o' ho'
  rw [stateObjects_set] at ho'
  split at ho'
  · cases ho'
    exact ho
  · exact h x o' ho'

theorem NoneSuicided.modifyObject {b : Backend} {a : Address} {f : StateObject → StateObject}
    (hf : ∀ o, o.suicided = false → (f o).suicided = false) :
    (db.modifyObject b a f).NoneSuicided := by
  unfold StateDB.modifyObject
  split
  · rename_i o ho
    exact h.setStateObject (hf o (h.find? ho))
  · exact h

end

/-! ## What the operations do to objects -/

/-- The balance-relevant effect of an operation on the account `a`: the other objects
are untouched, `a` is cached with balance `n`, and `a` is dirty if it was or if the
operation journaled a change. -/
structure Writes (db db' : StateDB) (a : Address) (n : Int) (journaled : Prop) : Prop where
  other : ∀ x, x ≠ a → db'.stateObjects x = db.stateObjects x
  object : ∃ o, db'.stateObjects a = some o ∧ o.account.balance = n ∧
    (db.NoneSuicided → o.suicided = false)
  dirty : ∀ x, db'.Dirty x ↔ db.Dirty x ∨ (x = a ∧ journaled)

theorem getOrNew_object : (db.getOrNew b a).1.stateObjects a = some (db.getOrNew b a).2 := by
  unfold getOrNew
  split
  · simp [stateObjects_set]
  · simp [createObject, stateObjects_set]

theorem writes_getOrNew :
    Writes db (db.getOrNew b a).1 a (db.getBalance b a) (db.exist b a = false) := by
  unfold getOrNew getBalance exist
  cases hfind : db.find? b a with
  | some o =>
    refine ⟨?_, ⟨o, ?_, rfl, ?_⟩, ?_⟩
    · intro x hx
      rw [stateObjects_set, if_neg hx]
    · rw [stateObjects_set, if_pos rfl]
    · exact fun hnone => hnone.find? hfind
    · simp
  | none =>
    refine ⟨?_, ⟨newObject emptyAccount, ?_, rfl, fun _ => rfl⟩, ?_⟩
    · intro x hx
      rw [createObject, stateObjects_set, if_neg hx, stateObjects_append]
    · rw [createObject, stateObjects_set, if_pos rfl]
    · intro _
      simp [createObject, hfind, JournalEntry.dirtied, or_comm, eq_comm]

namespace Writes

variable {db} {db₁ : StateDB} {a} {n : Int} {journaled : Prop}

variable (h : Writes db db₁ a n journaled)

include h

theorem congr {journaled' : Prop} (hj : journaled ↔ journaled') : Writes db db₁ a n journaled' :=
  ⟨h.other, h.object, fun x => by rw [h.dirty, hj]⟩

theorem noneSuicided (hnone : db.NoneSuicided) : db₁.NoneSuicided := by
  obtain ⟨_, hoa, -, halive⟩ := h.object
  intro x o ho
  by_cases hx : x = a
  · subst hx
    rw [hoa] at ho
    cases ho
    exact halive hnone
  · rw [h.other x hx] at ho
    exact hnone x o ho

theorem set (o : StateObject) (halive : db.NoneSuicided → o.suicided = false) :
    Writes db (db₁.setStateObject a o) a o.account.balance journaled := by
  refine ⟨?_, ⟨o, ?_, rfl, halive⟩, h.dirty⟩
  · intro x hx
    rw [stateObjects_set, if_neg hx]
    exact h.other x hx
  · rw [stateObjects_set, if_pos rfl]

theorem append {e : JournalEntry} (he : e.dirtied = some a) :
    Writes db (db₁.append e) a n True := by
  refine ⟨h.other, h.object, ?_⟩
  intro _
  rw [dirty_append, h.dirty, he, Option.some.injEq]
  constructor
  · rintro (rfl | hx | ⟨rfl, -⟩)
    · exact .inr ⟨rfl, trivial⟩
    · exact .inl hx
    · exact .inr ⟨rfl, trivial⟩
  · rintro (hx | ⟨rfl, -⟩)
    · exact .inr (.inl hx)
    · exact .inl rfl

end Writes

theorem getOrNew_balance : (db.getOrNew b a).2.account.balance = db.getBalance b a ∧
    (db.NoneSuicided → (db.getOrNew b a).2.suicided = false) := by
  obtain ⟨_, ho, hbal, halive⟩ := (db.writes_getOrNew b a).object
  rw [getOrNew_object, Option.some.injEq] at ho
  rw [ho]
  exact ⟨hbal, halive⟩

theorem addBalance_eq : db.addBalance b a n = if n = 0 then (db.getOrNew b a).1
      else (db.getOrNew b a).1.setBalance a (db.getOrNew b a).2
        ((db.getOrNew b a).2.account.balance + n) := rfl

theorem writes_addBalance :
    Writes db (db.addBalance b a n) a (db.getBalance b a + n) (n ≠ 0 ∨ db.exist b a = false) := by
  obtain ⟨hbal, halive⟩ := db.getOrNew_balance b a
  have hget := db.writes_getOrNew b a
  rw [addBalance_eq]
  by_cases hn : n = 0
  · rw [if_pos hn]
    subst hn
    simpa using hget
  rw [if_neg hn, ← hbal]
  have hset := (hget.append (e := .balance a (db.getOrNew b a).2.account.balance) rfl).set
    ((db.getOrNew b a).2.setBalance ((db.getOrNew b a).2.account.balance + n)) halive
  exact hset.congr (by simp [hn])

theorem subBalance_eq_addBalance : db.subBalance b a n = db.addBalance b a (-n) := by
  unfold subBalance addBalance
  dsimp only
  by_cases hn : n = 0
  · rw [if_pos hn, if_pos (by omega)]
  · rw [if_neg hn, if_neg (by omega), Int.sub_eq_add_neg]

theorem writes_subBalance :
    Writes db (db.subBalance b a n) a (db.getBalance b a - n) (n ≠ 0 ∨ db.exist b a = false) := by
  have h := db.writes_addBalance b a (-n)
  rw [← subBalance_eq_addBalance, ← Int.sub_eq_add_neg] at h
  simpa only [neg_ne_zero, ne_eq] using h

theorem getState_account (o : StateObject) (key : Hash) :
    (o.getState b a key).2.account = o.account ∧ (o.getState b a key).2.suicided = o.suicided := by
  unfold getState getCommittedState
  split
  · exact ⟨rfl, rfl⟩
  · split <;> exact ⟨rfl, rfl⟩

/-- Whether `SetState` changes the slot. -/
def ChangesState (key value : Hash) : Prop :=
  ((db.getOrNew b a).2.getState b a key).1 ≠ value
deriving Decidable

theorem setState_eq : db.setState b a key value =
      if ((db.getOrNew b a).2.getState b a key).1 = value then
        (db.getOrNew b a).1.setStateObject a ((db.getOrNew b a).2.getState b a key).2 else
        ((db.getOrNew b a).1.append
          (.storage a key ((db.getOrNew b a).2.getState b a key).1)).setStateObject a
          (((db.getOrNew b a).2.getState b a key).2.setState key value) := rfl

theorem writes_setState : Writes db (db.setState b a key value) a (db.getBalance b a)
      (db.ChangesState b a key value ∨ db.exist b a = false) := by
  obtain ⟨hbal, halive⟩ := db.getOrNew_balance b a
  have hget := db.writes_getOrNew b a
  rw [setState_eq]
  unfold ChangesState
  obtain ⟨hacc, hsuicided⟩ := getState_account b a (db.getOrNew b a).2 key
  rw [← hbal, ← hacc]
  split
  · rename_i hsame
    exact (hget.set _ fun h => hsuicided.trans (halive h)).congr (by simp [hsame])
  rename_i hne
  have hset := (hget.append (e := .storage a key ((db.getOrNew b a).2.getState b a key).1) rfl).set
    (((db.getOrNew b a).2.getState b a key).2.setState key value)
    fun h => hsuicided.trans (halive h)
  exact hset.congr (by simp [hne])

theorem writes_createAccount (h : db.exist b a = false) :
    Writes db (db.createAccount b a) a 0 True := by
  have hnone : db.find? b a = none := by simpa [exist] using h
  have hget := db.writes_getOrNew b a
  have hzero : db.getBalance b a = 0 := by simp [getBalance, hnone]
  rw [hzero] at hget
  unfold createAccount
  rw [hnone]
  unfold getOrNew at hget
  rw [hnone] at hget
  exact hget.congr (by simp [h])

theorem touch_stateObjects {x : Address} (h : db.stateObjects x = some o) :
    (db.touch b a).stateObjects x = some o := by
  unfold touch
  split
  · rename_i o' hfind
    rw [stateObjects_set]
    split
    · rename_i hx
      subst hx
      rw [find?_of_stateObjects b db x h] at hfind
      exact hfind.symm
    · exact h
  · exact h

@[simp] theorem dirty_touch : (db.touch b a).Dirty x ↔ db.Dirty x := by
  unfold touch
  split <;> simp

/-! ## Undoing -/

/-- Every object of `db` is in `db'` with the same balance; `db'` may have more. -/
def Extends (db db' : StateDB) : Prop :=
  ∀ x o, db.stateObjects x = some o →
    ∃ o', db'.stateObjects x = some o' ∧ o'.account.balance = o.account.balance ∧
      o'.suicided = o.suicided

/-- The operations between `db` and `db'` are on the journal, and undoing them brings the
balances back, whatever has been loaded since. -/
def Undoable (db db' : StateDB) : Prop :=
  ∃ es, db'.journal = es ++ db.journal ∧ ∀ b db₂,
    (Extends db' db₂ → Extends db (es.foldl (undo b) db₂)) ∧
      (NoneSuicided db₂ → NoneSuicided (es.foldl (undo b) db₂))

variable {db}

theorem Extends.refl : Extends db db := fun _ o h => ⟨o, h, rfl, rfl⟩

variable {db₁ db₂ db' : StateDB}

theorem Extends.trans (h₁ : Extends db db₁) (h₂ : Extends db₁ db₂) : Extends db db₂ := by
  intro x o ho
  obtain ⟨o₁, ho₁, hbal₁, hsuicided₁⟩ := h₁ x o ho
  obtain ⟨o₂, ho₂, hbal₂, hsuicided₂⟩ := h₂ x o₁ ho₁
  exact ⟨o₂, ho₂, hbal₂.trans hbal₁, hsuicided₂.trans hsuicided₁⟩

theorem Undoable.of_extends (h : Extends db db') (hj : db'.journal = db.journal) :
    Undoable db db' :=
  ⟨[], hj, fun _ _ => ⟨h.trans, id⟩⟩

theorem Undoable.trans (h₁ : Undoable db db₁) (h₂ : Undoable db₁ db₂) : Undoable db db₂ := by
  obtain ⟨es₁, hj₁, hundo₁⟩ := h₁
  obtain ⟨es₂, hj₂, hundo₂⟩ := h₂
  refine ⟨es₂ ++ es₁, by rw [hj₂, hj₁, append_assoc], ?_⟩
  intro b db₃
  rw [foldl_append]
  exact ⟨fun h => (hundo₁ b _).1 ((hundo₂ b db₃).1 h), fun h => (hundo₁ b _).2 ((hundo₂ b db₃).2 h)⟩

theorem undoable_createObject {b a} (h : db.find? b a = none) :
    Undoable db (db.createObject b a) := by
  refine ⟨[.createObject a], by simp [createObject, h, append, setStateObject], ?_⟩
  intro _ _
  constructor
  · intro hext x o ho
    have hx : x ≠ a := by
      rintro rfl
      rw [find?_of_stateObjects b db x ho] at h
      cases h
    obtain ⟨o', ho', hsame⟩ := hext x o (by
      rw [createObject, stateObjects_set, if_neg hx, stateObjects_append]
      exact ho)
    refine ⟨o', ?_, hsame⟩
    simp [undo, hx, ho']
  · intro hnone x o ho
    by_cases hx : x = a
    · simp [undo, hx] at ho
    · exact hnone x o (by simpa [undo, hx] using ho)

theorem undoable_setBalance {a} (h : db.stateObjects a = some o) (n : Int) :
    Undoable db (db.setBalance a o n) := by
  refine ⟨[.balance a o.account.balance], rfl, ?_⟩
  intro b db₂
  rw [foldl_cons, foldl_nil, undo]
  refine ⟨?_, fun hnone => hnone.modifyObject fun _ ho => ho⟩
  intro hext x o₁ ho₁
  have hcached : (db.setBalance a o n).stateObjects a = some (o.setBalance n) := by
    rw [setBalance, stateObjects_set, if_pos rfl]
  obtain ⟨_, hoa, -, hsuicided⟩ := hext a _ hcached
  simp only [modifyObject, find?_of_stateObjects b db₂ a hoa, stateObjects_set]
  by_cases hx : x = a
  · subst hx
    rw [h, Option.some.injEq] at ho₁
    subst ho₁
    exact ⟨_, if_pos rfl, rfl, hsuicided⟩
  obtain ⟨o', ho', hsame⟩ := hext x o₁ (by
    rw [setBalance, stateObjects_set, if_neg hx, stateObjects_append]
    exact ho₁)
  exact ⟨o', by rw [if_neg hx, ho'], hsame⟩

theorem extends_setStateObject_of_find? {b a} (h : db.find? b a = some o) :
    Extends db (db.setStateObject a o) := by
  intro x o' ho'
  refine ⟨o', ?_, rfl, rfl⟩
  rw [stateObjects_set]
  split
  · rename_i hx
    subst hx
    rw [find?_of_stateObjects b db x ho'] at h
    exact h.symm
  · exact ho'

theorem undoable_getOrNew (b : Backend) (a : Address) : Undoable db (db.getOrNew b a).1 := by
  unfold getOrNew
  cases h : db.find? b a with
  | some => exact .of_extends (extends_setStateObject_of_find? h) rfl
  | none => exact undoable_createObject h

theorem undoable_addBalance (b : Backend) (a : Address) (n : Int) :
    Undoable db (db.addBalance b a n) := by
  rw [addBalance_eq]
  split
  · exact undoable_getOrNew b a
  · exact (undoable_getOrNew b a).trans (undoable_setBalance (db.getOrNew_object b a) _)

theorem undoable_createAccount {b a} (h : db.exist b a = false) :
    Undoable db (db.createAccount b a) := by
  have hnone : db.find? b a = none := by simpa [exist] using h
  unfold createAccount
  rw [hnone]
  exact undoable_createObject hnone

theorem Undoable.revert (h : Undoable db db') (b : Backend) :
    (db'.revert b db.journal.length).journal = db.journal ∧
      Extends db (db'.revert b db.journal.length) ∧
      (NoneSuicided db' → NoneSuicided (db'.revert b db.journal.length)) := by
  obtain ⟨es, hj, hundo⟩ := h
  have hlen : db'.journal.length - db.journal.length = es.length := by
    rw [hj, length_append, Nat.add_sub_cancel]
  unfold StateDB.revert
  dsimp only
  rw [hlen, hj, take_left, drop_left]
  exact ⟨rfl, (hundo b db').1 .refl, (hundo b db').2⟩

theorem revert_nextRevisionID (b : Backend) (db : StateDB) (index : Nat) :
    (db.revert b index).nextRevisionID = db.nextRevisionID := by
  have hundo : ∀ (db : StateDB) (e : JournalEntry),
      (db.undo b e).nextRevisionID = db.nextRevisionID := by
    intro db e
    cases e <;> simp only [undo, modifyObject] <;> (try split) <;> rfl
  have hfold : ∀ (es : List JournalEntry) (db : StateDB),
      (es.foldl (.undo b) db).nextRevisionID = db.nextRevisionID := by
    intro es
    induction es with
    | nil => exact fun _ => rfl
    | cons e _ ih => exact fun db => (ih _).trans (hundo db e)
  exact hfold _ db

theorem revertToSnapshot_eq_some {b : Backend} {revid : Nat} :
    db.revertToSnapshot b revid = some db' ↔
      ∃ before after index, db.validRevisions = before ++ (revid, index) :: after ∧
        (∀ r ∈ before, r.1 < revid) ∧
        db' = { db.revert b index with validRevisions := before } := by
  unfold revertToSnapshot
  constructor
  · intro h
    dsimp only at h
    split at h
    · cases h
    rename_i id index hget
    split at h
    · cases h
    rename_i hid
    cases h
    obtain rfl : id = revid := not_not.mp hid
    obtain ⟨hlt, hgetElem⟩ := List.getElem?_eq_some_iff.mp hget
    refine ⟨_, db.validRevisions.drop (db.validRevisions.findIdx (fun r => id ≤ r.1) + 1),
      index, ?_, ?_, rfl⟩
    · rw [← hgetElem, ← drop_eq_getElem_cons hlt, take_append_drop]
    intro r hr
    obtain ⟨_, hi, rfl⟩ := mem_take_iff_getElem.mp hr
    have hnot := not_of_lt_findIdx (Nat.lt_of_lt_of_le hi (Nat.min_le_left _ _))
    simpa using hnot
  · rintro ⟨before, _, _, hvalid, hbefore, rfl⟩
    have hidx : db.validRevisions.findIdx (fun r => decide (revid ≤ r.1)) = before.length := by
      have hnone : before.findIdx (fun r => decide (revid ≤ r.1)) = before.length := by
        rw [findIdx_eq_length]
        intro r hr
        simpa using hbefore r hr
      rw [hvalid, findIdx_append, hnone, if_neg (Nat.lt_irrefl _), findIdx_cons]
      simp
    dsimp only
    rw [hidx, hvalid, List.getElem?_append_right (Nat.le_refl _), Nat.sub_self]
    simp

end StateDB

/-! ## Commit -/

variable {k : Keeper} {refuses : Refusal} {b b' : Backend}

theorem StateObject.commit_ok {a : Address} {o o' : StateObject} (halive : o.suicided = false)
    (h : (o.commit k refuses a).run b = (b', .ok o')) :
    (∀ x, (b'.bank x : Int) = if x = a then o.account.balance else b.bank x) ∧
      b'.supply = b.supply + (o.account.balance - b.bank a) := by
  unfold commit at h
  rw [if_neg (by simp [halive])] at h
  have hcode : ∃ code, o.writeCode.run b = ({ b with code := code }, .ok ()) := by
    unfold writeCode
    split <;> exact ⟨_, rfl⟩
  obtain ⟨code, hcode⟩ := hcode
  rw [run_bind_of_ok hcode] at h
  rcases hset : (setAccount k refuses a o.account).run { b with code := code } with ⟨_, _ | ⟨⟩⟩
  · rw [run_bind_of_error hset] at h
    cases h
  rw [run_bind_of_ok hset, writeStorage, run_modify_bind, run_pure, Prod.mk.injEq] at h
  obtain ⟨hbank, hsupply, -, -⟩ := setAccount_ok hset
  rw [← h.1]
  exact ⟨hbank, hsupply⟩

namespace StateDB

variable {db : StateDB}

theorem commitAll_ok {l : Address → Int} {ds : List Address} {db' : StateDB} (hnodup : ds.Nodup)
    (hobjs : ∀ a ∈ ds, ∃ o, db.stateObjects a = some o ∧ o.suicided = false ∧
      o.account.balance = l a)
    (h : (commitAll k refuses ds).run (db, b) = ((db', b'), .ok ())) :
    (∀ x, (b'.bank x : Int) = if x ∈ ds then l x else b.bank x) ∧
      b'.supply = b.supply + (ds.map fun a => l a - b.bank a).sum := by
  induction ds generalizing db b with
  | nil =>
    rw [commitAll, run_pure, Prod.mk.injEq, Prod.mk.injEq] at h
    obtain ⟨⟨-, rfl⟩, -⟩ := h
    simp
  | cons a rest ih =>
    obtain ⟨hnotin, hrest⟩ := nodup_cons.mp hnodup
    obtain ⟨o, ho, halive, hbal⟩ := hobjs a mem_cons_self
    rw [commitAll, run_gets_bind] at h
    simp only [ho] at h
    rcases hcommit : (o.commit k refuses a).run b with ⟨b₁, _ | o₁⟩
    · rw [run_bind_of_error (run_zoom_of_error (s := (db, b)) _ _ _ hcommit)] at h
      cases h
    rw [run_bind_of_ok (run_zoom_of_ok (s := (db, b)) _ _ _ hcommit), run_modify_bind] at h
    obtain ⟨hbank₁, hsupply₁⟩ := commit_ok halive hcommit
    -- the objects still to be written are untouched
    have hobjs₁ : ∀ x ∈ rest, ∃ o, (db.setStateObject a o₁).stateObjects x = some o ∧
        o.suicided = false ∧ o.account.balance = l x := by
      intro x hx
      obtain ⟨ox, hox, hrestx⟩ := hobjs x (mem_cons_of_mem a hx)
      have hne : x ≠ a := fun h => hnotin (h ▸ hx)
      exact ⟨ox, by rw [stateObjects_set, if_neg hne, hox], hrestx⟩
    obtain ⟨hbank, hsupply⟩ := ih hrest hobjs₁ h
    constructor
    · intro x
      rw [hbank, hbank₁, hbal]
      by_cases hxa : x = a
      · subst hxa
        simp [hnotin]
      · simp [hxa]
    · have hsame : (rest.map fun x => l x - (b₁.bank x : Int)) =
          rest.map fun x => l x - (b.bank x : Int) := by
        refine map_congr_left fun x hx => ?_
        have hne : x ≠ a := fun h => hnotin (h ▸ hx)
        rw [hbank₁, if_neg hne]
      rw [hsupply, hsame, hsupply₁, hbal, map_cons, sum_cons]
      omega

theorem mem_sortedDirties {a : Address} : a ∈ db.sortedDirties ↔ db.Dirty a := by
  unfold sortedDirties Dirty
  rw [(perm_insertionSort _ _).mem_iff, mem_dedup]

theorem nodup_sortedDirties (db : StateDB) : db.sortedDirties.Nodup :=
  (perm_insertionSort _ _).nodup_iff.mpr (nodup_dedup _)

end StateDB

/-! ## The ledger after the next commit -/

/-- The next commit leaves the ledger `l`. -/
structure Reflects (b : Backend) (db : StateDB) (l : Address → Int) : Prop where
  dirty : ∀ a, db.Dirty a →
    ∃ o, db.stateObjects a = some o ∧ o.suicided = false ∧ o.account.balance = l a
  clean : ∀ a, ¬ db.Dirty a → (b.bank a : Int) = l a

/-- The StateDB and the bank agree on the account, or the account is dirty already. -/
def Synced (b : Backend) (db : StateDB) (a : Address) : Prop :=
  db.Dirty a ∨ db.getBalance b a = b.bank a
deriving Decidable

namespace Reflects

variable {b : Backend} {db db' : StateDB} {l : Address → Int} {a : Address} {n : Int}

theorem new (b : Backend) (txConfig : TxConfig) : Reflects b (.new txConfig) fun a => b.bank a :=
  ⟨fun _ h => absurd h not_mem_nil, fun _ _ => rfl⟩

theorem getBalance_eq (h : Reflects b db l) (hs : Synced b db a) : db.getBalance b a = l a := by
  by_cases hdirty : db.Dirty a
  · obtain ⟨_, ho, -, hbal⟩ := h.dirty a hdirty
    rw [getBalance_of_stateObjects b db a ho, hbal]
  · rw [← h.clean a hdirty]
    exact hs.resolve_left hdirty

variable (h : Reflects b db l)

include h

section

variable (hnone : db.NoneSuicided)

include hnone

theorem writes {journaled : Prop} (hw : db.Writes db' a n journaled) {l' : Address → Int}
    (hother : ∀ x, x ≠ a → l' x = l x) (hdirty : db.Dirty a ∨ journaled → n = l' a)
    (hclean : ¬ db.Dirty a → ¬ journaled → (b.bank a : Int) = l' a) : Reflects b db' l' := by
  obtain ⟨oa, hoa, hbal, halive⟩ := hw.object
  constructor
  · intro x hx
    rw [hw.dirty] at hx
    by_cases hxa : x = a
    · subst hxa
      exact ⟨oa, hoa, halive hnone, hbal.trans (hdirty (hx.imp_right And.right))⟩
    · rw [hw.other x hxa, hother x hxa]
      exact h.dirty x (hx.resolve_right fun h => hxa h.1)
  · intro x hx
    rw [hw.dirty, not_or] at hx
    by_cases hxa : x = a
    · subst hxa
      exact hclean hx.1 fun hj => hx.2 ⟨rfl, hj⟩
    · rw [hother x hxa]
      exact h.clean x hx.1

theorem addBalance (hs : n ≠ 0 ∨ db.exist b a = false → Synced b db a) :
    Reflects b (db.addBalance b a n) (update l a (l a + n)) := by
  refine h.writes hnone (db.writes_addBalance b a n) (fun x hx => update_of_ne hx _ _)
    ?_ ?_
  · intro hd
    have hsynced : Synced b db a := hd.elim .inl hs
    rw [h.getBalance_eq hsynced, update_self]
  intro hclean hj
  have hzero : n = 0 := by
    by_contra hn
    exact hj (.inl hn)
  rw [update_self, h.clean a hclean, hzero, add_zero]

theorem subBalance (hs : n ≠ 0 ∨ db.exist b a = false → Synced b db a) :
    Reflects b (db.subBalance b a n) (update l a (l a - n)) := by
  rw [subBalance_eq_addBalance, Int.sub_eq_add_neg]
  exact h.addBalance hnone (by simpa using hs)

theorem setState {key value : Hash}
    (hs : db.ChangesState b a key value ∨ db.exist b a = false → Synced b db a) :
    Reflects b (db.setState b a key value) l := by
  refine h.writes hnone (db.writes_setState b a key value) (fun _ _ => rfl) ?_ ?_
  · intro hd
    exact h.getBalance_eq (hd.elim .inl hs)
  · intro hclean _
    exact h.clean a hclean

theorem createAccount (hexist : db.exist b a = false) (hs : Synced b db a) :
    Reflects b (db.createAccount b a) l := by
  have hzero : db.getBalance b a = 0 := by
    have hfind : db.find? b a = none := by simpa [exist] using hexist
    simp [getBalance, hfind]
  refine h.writes hnone (db.writes_createAccount b a hexist) (fun _ _ => rfl) ?_ ?_
  · intro _
    rw [← hzero, h.getBalance_eq hs]
  · intro _ hj
    exact absurd trivial hj

end

theorem touch : Reflects b (db.touch b a) l := by
  constructor
  · intro x hx
    obtain ⟨o, ho, hrest⟩ := h.dirty x (by simpa using hx)
    exact ⟨o, db.touch_stateObjects b a ho, hrest⟩
  · intro x hx
    exact h.clean x (by simpa using hx)

theorem bank (hclean : ∀ x, b'.bank x ≠ b.bank x → ¬ db.Dirty x) :
    Reflects b' db fun x => l x + (b'.bank x - b.bank x) := by
  constructor
  · intro x hx
    obtain ⟨o, ho, halive, hbal⟩ := h.dirty x hx
    have hsame : b'.bank x = b.bank x := by
      by_contra hne
      exact hclean x hne hx
    exact ⟨o, ho, halive, by rw [hbal, hsame]; omega⟩
  · intro x hx
    rw [← h.clean x hx]
    omega

theorem of_extends (hext : db.Extends db') (hj : db'.journal = db.journal) : Reflects b db' l := by
  have hdirty : ∀ x, db'.Dirty x ↔ db.Dirty x := fun x => by
    unfold StateDB.Dirty
    rw [hj]
  constructor
  · intro x hx
    obtain ⟨o, ho, halive, hbal⟩ := h.dirty x ((hdirty x).mp hx)
    obtain ⟨o', ho', hbal', halive'⟩ := hext x o ho
    exact ⟨o', ho', halive'.trans halive, hbal'.trans hbal⟩
  · intro x hx
    exact h.clean x fun h => hx ((hdirty x).mpr h)

end Reflects

/-! ## Conservation -/

instance : Finite Address :=
  Finite.of_injective (fun a : Address => fun i : Fin 20 => (a.bytes.getD i 0).toFin) (by
    intro a b h
    refine Address.ext (ext_getElem (by rw [a.length_bytes, b.length_bytes]) ?_)
    intro i hi hi'
    have hi20 : i < 20 := a.length_bytes ▸ hi
    have hget := congrFun h ⟨i, hi20⟩
    exact UInt8.toFin_inj.mp (by simpa [getD_eq_getElem?_getD, hi, hi'] using hget))

/-- All addresses there are. -/
noncomputable def allAddresses : Finset Address := Set.finite_univ.toFinset

theorem mem_allAddresses (a : Address) : a ∈ allAddresses := by simp [allAddresses]

/-- The sum of all balances. -/
noncomputable def total (l : Address → Int) : Int := ∑ a ∈ allAddresses, l a

/-- A single ledger after a transfer. -/
def moved (l : Address → Int) (src dst : Address) (n : Nat) : Address → Int := fun a =>
  l a - (if a = src then (n : Int) else 0) + (if a = dst then (n : Int) else 0)

theorem total_moved (l : Address → Int) (src dst : Address) (n : Nat) :
    total (moved l src dst n) = total l := by
  unfold total moved
  rw [Finset.sum_add_distrib, Finset.sum_sub_distrib, Finset.sum_ite_eq', Finset.sum_ite_eq',
    if_pos (mem_allAddresses _), if_pos (mem_allAddresses _)]
  omega

theorem total_add_sub (l : Address → Int) (m m' : Ledger) :
    total (fun a => l a + ((m' a : Int) - m a)) =
      total l + (total (fun a => m' a) - total fun a => m a) := by
  unfold total
  rw [Finset.sum_add_distrib, Finset.sum_sub_distrib]

theorem Reflects.commit {db db' : StateDB} {l : Address → Int} (h : Reflects b db l)
    (hcommit : (StateDB.commit k refuses).run (db, b) = ((db', b'), .ok ())) :
    (∀ a, (b'.bank a : Int) = l a) ∧
      b'.supply = b.supply + (total l - total fun a => b.bank a) := by
  rw [StateDB.commit, run_gets_bind] at hcommit
  obtain ⟨hbank, hsupply⟩ := commitAll_ok (l := l) db.nodup_sortedDirties
    (fun a ha => h.dirty a (mem_sortedDirties.mp ha)) hcommit
  constructor
  · intro a
    rw [hbank]
    split
    · rfl
    · rename_i hnot
      exact h.clean a fun hd => hnot (mem_sortedDirties.mpr hd)
  rw [hsupply]
  congr 1
  rw [← sum_toFinset _ db.nodup_sortedDirties]
  unfold total
  rw [← Finset.sum_sub_distrib]
  refine Finset.sum_subset (fun a _ => mem_allAddresses a) ?_
  intro a _ hnot
  rw [mem_toFinset, mem_sortedDirties] at hnot
  rw [h.clean a hnot, sub_self]

end HyperPax.Evm
