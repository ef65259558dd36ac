/-
  Evm/Similar.lean --- StateDBs that differ in their caches only.

  Undoing the journal entries of a stretch of calls does not give back the same StateDB:
  accounts and slots that were loaded stay in the cache, a slot that was written stays
  in the dirty slots with its old value, and an object whose code was set stays marked.
  `Similar b db db'` says that `db'` differs from `db` in such ways only.  Undoing respects
  it, and no getter sees the difference.
-/
import HyperPax.Evm.Calls

set_option autoImplicit false

namespace HyperPax.Evm

open Lib Function StateObject

/-! ## Objects that differ in their caches -/

/-- `o'` is `o` with more in its caches: loaded slots, dirty slots with the value they have
anyway, and the code that is in the store anyway. -/
structure SimilarObject (b : Backend) (a : Address) (o o' : StateObject) : Prop where
  account : o'.account = o.account
  suicided : o'.suicided = o.suicided
  transient : o'.transientStorage = o.transientStorage
  origin : ∀ key, o'.originStorage key = o.originStorage key ∨
    (o.originStorage key = none ∧ o'.originStorage key = some (b.storage a key))
  dirty : ∀ key, o'.dirtyStorage key = o.dirtyStorage key ∨
    (o.dirtyStorage key = none ∧ o.transientStorage key = none ∧
      o'.dirtyStorage key ≠ none ∧ o'.dirtyStorage key = o'.originStorage key)
  code : (o'.code = o.code ∧ o'.dirtyCode = o.dirtyCode) ∨
    (o'.code = o.getCode b ∧ o'.dirtyCode)

namespace SimilarObject

variable {b : Backend} {a : Address} {o o' o'' : StateObject}

theorem refl : SimilarObject b a o o :=
  ⟨rfl, rfl, rfl, fun _ => .inl rfl, fun _ => .inl rfl, .inl ⟨rfl, rfl⟩⟩

variable (h : SimilarObject b a o o')

include h

theorem getCode_eq : o'.getCode b = o.getCode b := by
  unfold getCode
  rw [h.account]
  cases h.code with
  | inl hsame => rw [hsame.1]
  | inr hloaded =>
    rw [hloaded.1, getCode]
    cases o.code with
    | some => rfl
    | none =>
      dsimp only
      split
      · rename_i c hc
        rw [hc]
      · rfl

variable {key : Hash}

theorem origin_of_some {value : Hash} (hsome : o.originStorage key = some value) :
    o'.originStorage key = some value := by
  cases h.origin key with
  | inl hsame => rw [hsame, hsome]
  | inr hnew =>
    rw [hsome] at hnew
    cases hnew.1

theorem dirty_ne_none (hne : o.dirtyStorage key ≠ none) : o'.dirtyStorage key ≠ none := by
  cases h.dirty key with
  | inl hsame =>
    rw [hsame]
    exact hne
  | inr hnew => exact absurd hnew.1 hne

theorem trans (h' : SimilarObject b a o' o'') : SimilarObject b a o o'' := by
  refine ⟨h'.account.trans h.account, h'.suicided.trans h.suicided,
    h'.transient.trans h.transient, ?_, ?_, ?_⟩
  · intro key
    cases h'.origin key with
    | inl hsame =>
      rw [hsame]
      exact h.origin key
    | inr hnew =>
      cases h.origin key with
      | inl hsame =>
        rw [hsame] at hnew
        exact .inr hnew
      | inr hsome =>
        rw [hsome.2] at hnew
        cases hnew.1
  · intro key
    cases h'.dirty key with
    | inl hsame =>
      rw [hsame]
      cases h.dirty key with
      | inl hsame' => exact .inl hsame'
      | inr hnew =>
        obtain ⟨hnone, htransient, hsome, heq⟩ := hnew
        obtain ⟨_, hvalue⟩ := Option.ne_none_iff_exists'.mp hsome
        refine .inr ⟨hnone, htransient, hsome, ?_⟩
        rw [hvalue] at heq ⊢
        exact (h'.origin_of_some heq.symm).symm
    | inr hnew =>
      cases h.dirty key with
      | inl hsame =>
        rw [hsame, h.transient] at hnew
        exact .inr hnew
      | inr hsome => exact absurd hnew.1 hsome.2.2.1
  · cases h'.code with
    | inl hsame =>
      rw [hsame.1, hsame.2]
      exact h.code
    | inr hloaded =>
      rw [h.getCode_eq] at hloaded
      exact .inr hloaded

theorem setBalance (amount : Int) :
    SimilarObject b a (o.setBalance amount) (o'.setBalance amount) where
  __ := h
  account := by simp [StateObject.setBalance, h.account]

theorem setNonce (nonce : UInt64) : SimilarObject b a (o.setNonce nonce) (o'.setNonce nonce) where
  __ := h
  account := by simp [StateObject.setNonce, h.account]

theorem setCode (codeHash : Hash) (code : Option (List UInt8)) :
    SimilarObject b a (o.setCode codeHash code) (o'.setCode codeHash code) where
  __ := h
  account := by simp [StateObject.setCode, h.account]
  code := .inl ⟨rfl, rfl⟩

theorem setState (key value : Hash) :
    SimilarObject b a (o.setState key value) (o'.setState key value) where
  __ := h
  dirty x := by
    simp only [StateObject.setState, update_apply]
    split
    · exact .inl rfl
    · exact h.dirty x

theorem setSuicided (suicided : Bool) :
    SimilarObject b a { o with suicided := suicided } { o' with suicided := suicided } where
  __ := h
  suicided := rfl

/-! ### Getters of similar objects -/

theorem getCommittedState_eq (key : Hash) :
    (o'.getCommittedState b a key).1 = (o.getCommittedState b a key).1 := by
  unfold getCommittedState
  cases h.origin key with
  | inl hsame =>
    rw [hsame]
    cases o.originStorage key with
    | some => rfl
    | none => rfl
  | inr hnew => rw [hnew.1, hnew.2]

theorem getState_eq (key : Hash) : (o'.getState b a key).1 = (o.getState b a key).1 := by
  have hcommitted := h.getCommittedState_eq key
  unfold getState
  cases h.dirty key with
  | inl hsame =>
    rw [hsame]
    cases o.dirtyStorage key with
    | some => rfl
    | none => exact hcommitted
  | inr hnew =>
    obtain ⟨hnone, -, hsome, heq⟩ := hnew
    obtain ⟨value, hvalue⟩ := Option.ne_none_iff_exists'.mp hsome
    have horigin : (o'.getCommittedState b a key).1 = value := by
      rw [hvalue] at heq
      simp [getCommittedState, ← heq]
    rw [hnone, hvalue]
    exact horigin.symm.trans hcommitted

end SimilarObject

/-! ## Similar StateDBs -/

namespace StateDB

theorem optionRel_trans {α : Type} {R : α → α → Prop} (htrans : ∀ x y z, R x y → R y z → R x z)
    {x y z : Option α} (h : Option.Rel R x y) (h' : Option.Rel R y z) : Option.Rel R x z := by
  cases h with
  | none => exact h'
  | some hxy =>
    cases h' with
    | some hyz => exact .some (htrans _ _ _ hxy hyz)

/-- `db'` shows what `db` shows, from objects that may have more in their caches; it may
have more objects, and has those of `db`.  Journal and snapshots are not compared. -/
structure Similar (b : Backend) (db db' : StateDB) : Prop where
  objects : ∀ a, Option.Rel (SimilarObject b a) (db.find? b a) (db'.find? b a)
  cached : ∀ a, (db.stateObjects a).isSome → (db'.stateObjects a).isSome
  refund : db'.refund = db.refund
  logs : db'.logs = db.logs
  accessList : db'.accessList = db.accessList

theorem find?_setStateObject (b : Backend) (db : StateDB) (a x : Address) (o : StateObject) :
    (db.setStateObject a o).find? b x = if x = a then some o else db.find? b x := by
  unfold find?
  rw [stateObjects_set]
  by_cases hx : x = a
  · rw [if_pos hx, if_pos hx]
  · rw [if_neg hx, if_neg hx]

namespace Similar

variable {b : Backend} {db db' db'' : StateDB} {a : Address} {o o' : StateObject}

theorem refl : Similar b db db where
  objects a := by
    cases db.find? b a with
    | none => exact .none
    | some => exact .some .refl
  cached _ h := h
  refund := rfl
  logs := rfl
  accessList := rfl

theorem trans (h : Similar b db db') (h' : Similar b db' db'') : Similar b db db'' where
  objects a := optionRel_trans (fun _ _ _ => .trans) (h.objects a) (h'.objects a)
  cached a hx := h'.cached a (h.cached a hx)
  refund := h'.refund.trans h.refund
  logs := h'.logs.trans h.logs
  accessList := h'.accessList.trans h.accessList

theorem setStateObject (h : Similar b db db') (ho : SimilarObject b a o o') :
    Similar b (db.setStateObject a o) (db'.setStateObject a o') where
  __ := h
  objects x := by
    rw [find?_setStateObject, find?_setStateObject]
    split
    · rename_i hx
      subst hx
      exact .some ho
    · exact h.objects x
  cached x hx := by
    rw [stateObjects_set] at hx ⊢
    split
    · rfl
    rename_i hne
    rw [if_neg hne] at hx
    exact h.cached x hx

theorem set (hfind : db.find? b a = some o) (ho : SimilarObject b a o o') :
    Similar b db (db.setStateObject a o') where
  objects x := by
    rw [find?_setStateObject]
    split
    · rename_i hx
      subst hx
      rw [hfind]
      exact .some ho
    · exact refl.objects x
  cached x hx := by
    rw [stateObjects_set]
    split
    · rfl
    · exact hx
  refund := rfl
  logs := rfl
  accessList := rfl

theorem modifyObject (h : Similar b db db') {f : StateObject → StateObject}
    (hf : ∀ o o', SimilarObject b a o o' → SimilarObject b a (f o) (f o')) :
    Similar b (db.modifyObject b a f) (db'.modifyObject b a f) := by
  have hrel := h.objects a
  unfold StateDB.modifyObject
  generalize db.find? b a = x at hrel
  generalize db'.find? b a = y at hrel
  cases hrel with
  | none => exact h
  | some ho => exact h.setStateObject (hf _ _ ho)

theorem undo (h : Similar b db db') (e : JournalEntry) :
    Similar b (db.undo b e) (db'.undo b e) := by
  cases e with
  | createObject a =>
    refine ⟨?_, ?_, h.refund, h.logs, h.accessList⟩
    · intro x
      by_cases hx : x = a
      · subst hx
        simp only [StateDB.undo, find?, update_self]
        cases b.getAccount x with
        | none => exact .none
        | some => exact .some .refl
      · have hother : ∀ db : StateDB, (db.undo b (.createObject a)).find? b x = db.find? b x := by
          intro _
          simp [StateDB.undo, find?, hx]
        rw [hother, hother]
        exact h.objects x
    · intro x hx
      by_cases hxa : x = a
      · simp [StateDB.undo, hxa] at hx
      · simp only [StateDB.undo, update_of_ne hxa] at hx ⊢
        exact h.cached x hx
  | resetObject => exact h.setStateObject .refl
  | suicide _ prev prevBalance =>
    exact h.modifyObject fun _ _ ho => (ho.setBalance prevBalance).setSuicided prev
  | balance _ prev => exact h.modifyObject fun _ _ ho => ho.setBalance prev
  | nonce _ prev => exact h.modifyObject fun _ _ ho => ho.setNonce prev
  | storage _ key prevValue => exact h.modifyObject fun _ _ ho => ho.setState key prevValue
  | code _ prevCode prevHash => exact h.modifyObject fun _ _ ho => ho.setCode prevHash prevCode
  | refund => exact ⟨h.objects, h.cached, rfl, h.logs, h.accessList⟩
  | addLog => exact ⟨h.objects, h.cached, h.refund, congrArg List.dropLast h.logs, h.accessList⟩
  | accessListAddAccount a =>
    exact ⟨h.objects, h.cached, h.refund, h.logs,
      congrArg (AccessList.deleteAddress · a) h.accessList⟩
  | accessListAddSlot a slot =>
    exact ⟨h.objects, h.cached, h.refund, h.logs,
      congrArg (AccessList.deleteSlot · a slot) h.accessList⟩

theorem respects (b : Backend) : Respects (.undo b) (Similar b) := fun _ _ e h => h.undo e

/-- No getter sees the difference. -/
theorem view_eq (h : Similar b db db') : db'.view b = db.view b := by
  have hat : ∀ a key, db'.exist b a = db.exist b a ∧ db'.empty b a = db.empty b a ∧
      db'.getBalance b a = db.getBalance b a ∧ db'.getNonce b a = db.getNonce b a ∧
      db'.getCode b a = db.getCode b a ∧ db'.getCodeHash b a = db.getCodeHash b a ∧
      db'.getState b a key = db.getState b a key ∧
      db'.getCommittedState b a key = db.getCommittedState b a key ∧
      db'.hasSuicided b a = db.hasSuicided b a := by
    intro a key
    have hrel := h.objects a
    simp only [exist, empty, getBalance, getNonce, getCode, getCodeHash, getState,
      getCommittedState, hasSuicided]
    generalize db.find? b a = x at hrel ⊢
    generalize db'.find? b a = y at hrel ⊢
    cases hrel with
    | none => exact ⟨rfl, rfl, rfl, rfl, rfl, rfl, rfl, rfl, rfl⟩
    | some ho =>
      refine ⟨rfl, ?_, congrArg Account.balance ho.account, congrArg Account.nonce ho.account,
        ho.getCode_eq, congrArg Account.codeHash ho.account, ho.getState_eq key,
        ho.getCommittedState_eq key, ho.suicided⟩
      simp only [StateObject.empty, ho.account]
  simp only [view, View.mk.injEq, h.refund, h.logs, h.accessList, and_true]
  refine ⟨?_, ?_, ?_, ?_, ?_, ?_, ?_, ?_, ?_⟩
  · exact funext fun a => (hat a 0).1
  · exact funext fun a => (hat a 0).2.1
  · exact funext fun a => (hat a 0).2.2.1
  · exact funext fun a => (hat a 0).2.2.2.1
  · exact funext fun a => (hat a 0).2.2.2.2.1
  · exact funext fun a => (hat a 0).2.2.2.2.2.1
  · exact funext fun a => funext fun key => (hat a key).2.2.2.2.2.2.1
  · exact funext fun a => funext fun key => (hat a key).2.2.2.2.2.2.2.1
  · exact funext fun a => (hat a 0).2.2.2.2.2.2.2.2

theorem object (h : db.Similar b db') (ho' : db'.stateObjects a = some o') :
    ∃ o, db.find? b a = some o ∧ SimilarObject b a o o' := by
  have hrel := h.objects a
  rw [find?_of_stateObjects b db' a ho'] at hrel
  generalize db.find? b a = x at hrel
  cases hrel with
  | some ho => exact ⟨_, rfl, ho⟩

end Similar

end StateDB

end HyperPax.Evm
