/-
  Evm/Sound.lean --- what holds at every depth of the journal.

  `Sound` says of a StateDB and a journal that each object's caches are nested, that code
  is kept under its hash, that every account the journal names is in the cache, and that
  the newest entry can be undone.  Every change of the interface leaves this at every
  depth (`Layered`), and undoing its entries leads back to a similar StateDB.  Neither a
  commit nor a change of the keeper disturbs it: undoing works on the cache alone.

  The hash of code is a parameter; its values are compared on the codes that occur.
-/
import HyperPax.Evm.Similar

set_option autoImplicit false

namespace HyperPax.Evm

open Lib StateDB List Function Option AccessList StateObject

/-! ## The access list -/

namespace AccessList

/-- An address without slots has index -1, one with slots the index of a list that is not
empty. -/
def Ok (al : AccessList) : Prop :=
  ∀ a idx, al.addresses a = some idx →
    idx = -1 ∨ (0 ≤ idx ∧ ∃ m, al.slots[idx.toNat]? = some m ∧ m ≠ [])

variable {al : AccessList} {a : Address} {idx : Int} {slot : Hash}

theorem Ok.addAddress (h : al.Ok) (a : Address) : (al.addAddress a).1.Ok := by
  unfold AccessList.addAddress
  split
  · exact h
  intro x idx hx
  simp only [update_apply] at hx
  split at hx
  · exact .inl (Option.some.inj hx).symm
  · exact h x idx hx

theorem addSlot_eq (haddr : al.addresses a = some idx)
    (hnew : idx = -1 ∨ slot ∉ al.slots.getD idx.toNat []) : (al.addSlot a slot).1 = if idx = -1 then
        ⟨update al.addresses a (some al.slots.length), al.slots ++ [[slot]]⟩
      else { al with slots := al.slots.set idx.toNat (slot :: al.slots.getD idx.toNat []) } := by
  simp only [addSlot, haddr]
  split
  · rfl
  · rename_i hslots
    rw [if_neg (hnew.resolve_left hslots)]

section

variable (h : al.Ok) (haddr : al.addresses a = some idx)
  (hnew : idx = -1 ∨ slot ∉ al.slots.getD idx.toNat [])

include h haddr hnew

theorem Ok.addSlot : (al.addSlot a slot).1.Ok := by
  rw [addSlot_eq haddr hnew]
  split
  · intro x i hx
    simp only [update_apply] at hx
    split at hx
    · have hi : i = al.slots.length := (Option.some.inj hx).symm
      exact .inr ⟨by omega, [slot], by simp [hi], by simp⟩
    cases h x i hx with
    | inl hnone => exact .inl hnone
    | inr hsome =>
      obtain ⟨hnonneg, m, hm, hne⟩ := hsome
      have hlt := (List.getElem?_eq_some_iff.mp hm).1
      exact .inr ⟨hnonneg, m, by rw [List.getElem?_append_left hlt, hm], hne⟩
  · intro x i hx
    cases h x i hx with
    | inl hnone => exact .inl hnone
    | inr hsome =>
      obtain ⟨hnonneg, m, hm, hne⟩ := hsome
      have hlt := (List.getElem?_eq_some_iff.mp hm).1
      refine .inr ⟨hnonneg, ?_⟩
      by_cases hi : idx.toNat = i.toNat
      · rw [hi, List.getElem?_set_self hlt]
        exact ⟨_, rfl, by simp⟩
      · rw [List.getElem?_set_ne hi]
        exact ⟨m, hm, hne⟩

theorem deleteSlot_addSlot : (al.addSlot a slot).1.deleteSlot a slot = al := by
  rw [addSlot_eq haddr hnew]
  split
  · rename_i hnone
    subst hnone
    have hsame : update al.addresses a (some (-1)) = al.addresses :=
      update_eq_self_iff.mpr haddr.symm
    simp [deleteSlot, getD_eq_getElem?_getD, hsame]
  rename_i hslots
  obtain ⟨-, m, hm, hne⟩ := (h a idx haddr).resolve_left hslots
  obtain ⟨hlt, hget⟩ := List.getElem?_eq_some_iff.mp hm
  have hm' : al.slots.getD idx.toNat [] = m := by rw [getD_eq_getElem?_getD, hm, getD_some]
  have hset : al.slots.set idx.toNat m = al.slots := by
    rw [← hget]
    exact set_getElem_self hlt
  rw [hm']
  simp [deleteSlot, haddr, getD_eq_getElem?_getD, hlt, hne, hset]

end

theorem deleteAddress_addAddress (haddr : al.addresses a = none) :
    (al.addAddress a).1.deleteAddress a = al := by
  have hsame : update al.addresses a none = al.addresses :=
    update_eq_self_iff.mpr haddr.symm
  simp [addAddress, haddr, deleteAddress, update_idem, hsame]

end AccessList

/-! ## What holds at every depth of the journal -/

/-- Every code in the store is under its hash; deleted code is not there. -/
def ContentAddressed (keccak : List UInt8 → Hash) (codes : Set (List UInt8)) (b : Backend) :
    Prop :=
  ∀ h c, b.code h = some c → keccak c = h ∧ c ∈ codes ∧ c ≠ []

/-- The caches of an object are nested, and code at hand has been set under its hash. -/
structure StateObject.Ok (keccak : List UInt8 → Hash) (codes : Set (List UInt8))
    (o : StateObject) : Prop where
  origin : ∀ key, o.dirtyStorage key ≠ none → o.originStorage key ≠ none
  dirty : ∀ key, o.transientStorage key ≠ none → o.dirtyStorage key ≠ none
  code : ∀ c, o.code = some c → o.dirtyCode ∧ keccak c = o.account.codeHash ∧ c ∈ codes

/-- The account whose object an entry changes. -/
def JournalEntry.account : JournalEntry → Option Address
  | .resetObject a _ => some a
  | e => e.dirtied

/-- The entry can be undone: the object is there, the slot is among its dirty ones, there is
a log to drop, and the address has a list of slots. -/
def JournalEntry.Applies (db : StateDB) : JournalEntry → Prop
  | .balance a _ => (db.stateObjects a).isSome
  | .nonce a _ => (db.stateObjects a).isSome
  | .code a _ _ => (db.stateObjects a).isSome
  | .storage a key _ => ∃ o, db.stateObjects a = some o ∧ o.dirtyStorage key ≠ none
  | .addLog => db.logs ≠ []
  | .accessListAddSlot a _ => ∃ idx, db.accessList.addresses a = some idx ∧ 0 ≤ idx ∧
    idx.toNat < db.accessList.slots.length
  | _ => True

theorem JournalEntry.Applies.transfer {db db' : StateDB} {e : JournalEntry} (h : e.Applies db)
    (hobjs : ∀ a o, db.stateObjects a = some o → ∃ o', db'.stateObjects a = some o' ∧
      ∀ key, o.dirtyStorage key ≠ none → o'.dirtyStorage key ≠ none)
    (hlogs : db'.logs = db.logs) (haccess : db'.accessList = db.accessList) : e.Applies db' := by
  have hcached : ∀ a, (db.stateObjects a).isSome → (db'.stateObjects a).isSome := by
    intro a ha
    obtain ⟨o, ho⟩ := isSome_iff_exists.mp ha
    obtain ⟨o', ho', -⟩ := hobjs a o ho
    rw [ho']
    rfl
  cases e with
  | storage a key =>
    obtain ⟨o, ho, hdirty⟩ := h
    obtain ⟨o', ho', hkeys⟩ := hobjs a o ho
    exact ⟨o', ho', hkeys key hdirty⟩
  | balance a | nonce a | code a => exact hcached a h
  | addLog =>
    simp only [Applies, hlogs]
    exact h
  | accessListAddSlot =>
    simp only [Applies, haccess]
    exact h
  | createObject | resetObject | suicide | refund | accessListAddAccount => trivial

section

variable (keccak : List UInt8 → Hash) (codes : Set (List UInt8)) {o : StateObject}

/-- The objects of a StateDB with the journal `es` are as they should be, every account the
journal names has one, and the newest entry can be undone. -/
structure Sound (db : StateDB) (es : List JournalEntry) : Prop where
  objects : ∀ a o, db.stateObjects a = some o → o.Ok keccak codes
  present : ∀ e ∈ es, ∀ a, e.account = some a → (db.stateObjects a).isSome
  access : db.accessList.Ok
  applies : ∀ e es', es = e :: es' → e.Applies db

variable {keccak codes} {b : Backend} {a : Address}

theorem StateObject.Ok.newObject (account : Account) : (newObject account).Ok keccak codes where
  origin _ h := absurd rfl h
  dirty _ h := absurd rfl h
  code _ h := by cases h

section

variable (h : o.Ok keccak codes) (hb : ContentAddressed keccak codes b)

include h hb

theorem StateObject.Ok.getCode {c : List UInt8} (hc : o.getCode b = some c) :
    keccak c = o.account.codeHash ∧ c ∈ codes := by
  unfold StateObject.getCode at hc
  split at hc
  · rename_i c' hcode
    cases hc
    exact (h.code c hcode).2
  split at hc
  · cases hc
  · obtain ⟨hhash, hmem, -⟩ := hb _ c hc
    exact ⟨hhash, hmem⟩

theorem StateObject.Ok.similar {o' : StateObject} (hsim : SimilarObject b a o o') :
    o'.Ok keccak codes := by
  refine ⟨?_, ?_, ?_⟩
  · intro key hdirty
    cases hsim.dirty key with
    | inl hsame =>
      rw [hsame] at hdirty
      obtain ⟨value, hvalue⟩ := ne_none_iff_exists'.mp (h.origin key hdirty)
      rw [hsim.origin_of_some hvalue]
      exact some_ne_none value
    | inr hnew =>
      rw [← hnew.2.2.2]
      exact hdirty
  · intro key htrans
    rw [hsim.transient] at htrans
    exact hsim.dirty_ne_none (h.dirty key htrans)
  · intro c hc
    rw [hsim.account]
    cases hsim.code with
    | inl hsame =>
      rw [hsame.1] at hc
      rw [hsame.2]
      exact h.code c hc
    | inr hloaded =>
      rw [hloaded.1] at hc
      exact ⟨hloaded.2, h.getCode hb hc⟩

end

namespace Sound

variable {db db' : StateDB} {es : List JournalEntry}

variable {o : StateObject} {e : JournalEntry}

variable (h : Sound keccak codes db es)

include h

theorem find? (ho : db.find? b a = some o) : o.Ok keccak codes := by
  unfold StateDB.find? at ho
  split at ho
  · rename_i o' hcached
    cases ho
    exact h.objects a o hcached
  · obtain ⟨account, -, rfl⟩ := map_eq_some_iff.mp ho
    exact .newObject account

theorem similar (hb : ContentAddressed keccak codes b) (hsim : db.Similar b db') :
    Sound keccak codes db' es := by
  refine ⟨?_, ?_, ?_, ?_⟩
  · intro a o' ho'
    obtain ⟨o, ho, hso⟩ := hsim.object ho'
    exact (h.find? ho).similar hb hso
  · intro e he a ha
    exact hsim.cached a (h.present e he a ha)
  · rw [hsim.accessList]
    exact h.access
  intro e es' hes
  refine (h.applies e es' hes).transfer ?_ hsim.logs hsim.accessList
  intro a _ ho
  obtain ⟨o', ho'⟩ := isSome_iff_exists.mp (hsim.cached a (by rw [ho]; rfl))
  obtain ⟨_, ho₁, hso⟩ := hsim.object ho'
  rw [find?_of_stateObjects b db a ho] at ho₁
  cases ho₁
  exact ⟨o', ho', fun _ => hso.dirty_ne_none⟩

theorem push (ho : o.Ok keccak codes) (he : e.account = some a)
    (happlies : e.Applies ((db.append e).setStateObject a o)) :
    Sound keccak codes ((db.append e).setStateObject a o) (e :: es) := by
  refine ⟨?_, ?_, h.access, ?_⟩
  · intro x o' ho'
    rw [stateObjects_set] at ho'
    split at ho'
    · cases ho'
      exact ho
    · exact h.objects x o' ho'
  · intro e' he' x hx
    rw [stateObjects_set]
    split
    · rfl
    rename_i hne
    cases mem_cons.mp he' with
    | inl hself =>
      rw [hself, he] at hx
      exact absurd (Option.some.inj hx).symm hne
    | inr hrest => exact h.present e' hrest x hx
  · intro _ _ hes
    cases hes
    exact happlies

theorem push_other (he : e.account = none) (hobjs : db'.stateObjects = db.stateObjects)
    (haccess : db'.accessList.Ok) (happlies : e.Applies db') :
    Sound keccak codes db' (e :: es) := by
  refine ⟨?_, ?_, haccess, ?_⟩
  · rw [hobjs]
    exact h.objects
  · intro e' he' x hx
    rw [hobjs]
    cases mem_cons.mp he' with
    | inl hself =>
      rw [hself, he] at hx
      cases hx
    | inr hrest => exact h.present e' hrest x hx
  · intro _ _ hes
    cases hes
    exact happlies

end Sound

/-! ## Changes are undone -/

variable {codeOk : Address → Hash → List UInt8 → Prop}
  {resetOk : StateDB → Address → StateObject → Prop}

namespace FieldChange

variable {o o' : StateObject} {e : JournalEntry}

variable (h : FieldChange b codeOk a o e o') (ho : o.Ok keccak codes)

include h ho

theorem ok (hcode : ∀ a h c, codeOk a h c → keccak c = h ∧ c ∈ codes) :
    o'.Ok keccak codes ∧ e.account = some a := by
  cases h with
  | balance amount | nonce nonce | suicide => exact ⟨⟨ho.origin, ho.dirty, ho.code⟩, rfl⟩
  | code codeHash code hok =>
    refine ⟨⟨ho.origin, ho.dirty, ?_⟩, rfl⟩
    intro _ hc
    cases hc
    exact ⟨rfl, hcode a codeHash code hok⟩
  | @storage key value prev hslot =>
    have horigin : o.originStorage key ≠ none := by
      intro hnone
      unfold cachedSlot at hslot
      rw [hnone, or_none] at hslot
      exact ho.origin key (by rw [hslot]; exact some_ne_none prev) hnone
    refine ⟨⟨?_, ?_, ho.code⟩, rfl⟩
    · intro x hx
      simp only [StateObject.setState, update_apply] at hx ⊢
      split at hx
      · rename_i hxk
        rw [hxk]
        exact horigin
      · exact ho.origin x hx
    · intro x hx
      simp only [StateObject.setState, update_apply]
      split
      · exact some_ne_none value
      · exact ho.dirty x hx

theorem undo {db : StateDB} (hdb : db.stateObjects a = some o') :
    e.Applies db ∧ ∃ o'', SimilarObject b a o o'' ∧ db.undo b e = db.setStateObject a o'' := by
  have hfind := find?_of_stateObjects b db a hdb
  have hcached : (db.stateObjects a).isSome := by rw [hdb]; rfl
  cases h with
  | balance amount | nonce nonce =>
    refine ⟨hcached, o, .refl, ?_⟩
    simp only [undo, modifyObject, hfind]
    rfl
  | suicide =>
    refine ⟨trivial, o, .refl, ?_⟩
    simp only [undo, modifyObject, hfind]
    rfl
  | code =>
    refine ⟨hcached, o.setCode o.account.codeHash (o.getCode b), ?_, ?_⟩
    · exact ⟨rfl, rfl, rfl, fun _ => .inl rfl, fun _ => .inl rfl, .inr ⟨rfl, rfl⟩⟩
    · simp only [undo, modifyObject, hfind]
      rfl
  | @storage key value prev hslot =>
    refine ⟨⟨_, hdb, ?_⟩, o.setState key prev, ?_, ?_⟩
    · simp [StateObject.setState]
    · refine ⟨rfl, rfl, rfl, fun _ => .inl rfl, ?_, .inl ⟨rfl, rfl⟩⟩
      intro x
      simp only [StateObject.setState, update_apply]
      split
      · rename_i hx
        subst hx
        unfold cachedSlot at hslot
        cases hdirty : o.dirtyStorage x with
        | some =>
          rw [hdirty, some_or] at hslot
          exact .inl hslot.symm
        | none =>
          -- the slot was not dirty, so it has its original value and was not committed
          rw [hdirty, none_or] at hslot
          refine .inr ⟨rfl, ?_, some_ne_none prev, hslot.symm⟩
          by_contra htrans
          exact ho.dirty x htrans hdirty
      · exact .inl rfl
    · simp only [StateDB.undo, StateDB.modifyObject, hfind, StateObject.setState, update_idem]

end FieldChange

namespace Change

variable {db db' : StateDB} {es es' : List JournalEntry}

variable (h : Change b codeOk resetOk db es' db')

include h

section

variable (hs : Sound keccak codes db es)

include hs

/-- Undoing the entries of a change leads back, up to caches. -/
theorem restores : db.Similar b (unwind (undo b) db' es') := by
  have hsame : db.Similar b db := .refl
  cases h with
  | load hfind => exact .set hfind .refl
  | slot hcached horigin =>
    refine .set (find?_of_stateObjects b db _ hcached) ?_
    refine ⟨rfl, rfl, rfl, ?_, fun _ => .inl rfl, .inl ⟨rfl, rfl⟩⟩
    intro x
    simp only [update_apply]
    split
    · rename_i hx
      rw [hx]
      exact .inr ⟨horigin, rfl⟩
    · exact .inl rfl
  | @create a hfind =>
    have hnone : db.stateObjects a = none := by
      unfold StateDB.find? at hfind
      split at hfind
      · cases hfind
      · assumption
    have hobjs : update (update db.stateObjects a
        (some (newObject emptyAccount))) a none = db.stateObjects := by
      rw [update_idem]
      exact update_eq_self_iff.mpr hnone.symm
    refine ⟨?_, ?_, rfl, rfl, rfl⟩
    · intro x
      simp only [unwind_cons, unwind_nil, undo, setStateObject, append, StateDB.find?, hobjs]
      exact hsame.objects x
    intro _ hx
    simp only [unwind_cons, unwind_nil, undo, setStateObject, append, hobjs]
    exact hx
  | reset hfind =>
    have hset := StateDB.Similar.set hfind .refl
    rw [unwind_cons, unwind_nil, undo, ByChanges.setStateObject_twice]
    exact ⟨hset.objects, hset.cached, rfl, rfl, rfl⟩
  | @field a o o' e hcached hfield =>
    have hobject : ((db.append e).setStateObject a o').stateObjects a = some o' := by
      rw [stateObjects_set, if_pos rfl]
    obtain ⟨-, _, hsim, hundo⟩ := hfield.undo (hs.objects a o hcached) hobject
    have hset := StateDB.Similar.set (find?_of_stateObjects b db a hcached) hsim
    rw [unwind_cons, unwind_nil, hundo, ByChanges.setStateObject_twice]
    exact ⟨hset.objects, hset.cached, rfl, rfl, rfl⟩
  | refund => exact ⟨hsame.objects, hsame.cached, rfl, rfl, rfl⟩
  | log => exact ⟨hsame.objects, hsame.cached, rfl, dropLast_concat, rfl⟩
  | address haddr => exact ⟨hsame.objects, hsame.cached, rfl, rfl, deleteAddress_addAddress haddr⟩
  | accessSlot haddr hnew =>
    exact ⟨hsame.objects, hsame.cached, rfl, rfl, deleteSlot_addSlot hs.access haddr hnew⟩

theorem sound (hb : ContentAddressed keccak codes b)
    (hcode : ∀ a h c, codeOk a h c → keccak c = h ∧ c ∈ codes) :
    Sound keccak codes db' (es' ++ es) := by
  have hrestores := h.restores hs
  cases h with
  | load hfind | slot hcached horigin => exact hs.similar hb hrestores
  | create hfind | reset hfind _ => exact hs.push (.newObject _) rfl trivial
  | @field a o o' e hcached hfield =>
    have hobject : ((db.append e).setStateObject a o').stateObjects a = some o' := by
      rw [stateObjects_set, if_pos rfl]
    obtain ⟨hok, hacc⟩ := hfield.ok (hs.objects a o hcached) hcode
    exact hs.push hok hacc (hfield.undo (hs.objects a o hcached) hobject).1
  | refund => exact hs.push_other rfl rfl hs.access trivial
  | log =>
    refine hs.push_other rfl rfl hs.access ?_
    simp [JournalEntry.Applies]
  | address => exact hs.push_other rfl rfl (hs.access.addAddress _) trivial
  | @accessSlot a idx slot haddr hnew =>
    refine hs.push_other rfl rfl (hs.access.addSlot haddr hnew) ?_
    simp only [JournalEntry.Applies, addSlot_eq haddr hnew]
    split
    · exact ⟨db.accessList.slots.length, update_self .., by omega, by simp⟩
    rename_i hslots
    obtain ⟨hnonneg, _, hm, -⟩ := (hs.access a idx haddr).resolve_left hslots
    have hlt := (List.getElem?_eq_some_iff.mp hm).1
    exact ⟨idx, haddr, hnonneg, by simpa using hlt⟩

theorem layered_of {P : StateDB → List JournalEntry → Prop}
    (hP : ∀ s t es, s.Similar b t → P s es → P t es) (hl : Layered (.undo b) P db es)
    (htop : P db' (es' ++ es)) : Layered (.undo b) P db' (es' ++ es) := by
  have hbelow : Layered (.undo b) P (unwind (.undo b) db' es') es :=
    hl.map hP (fun _ _ e _ hsim _ => hsim.undo e) (h.restores hs)
  cases h with
  | load | slot => exact hbelow
  | create | reset | field | refund | log | address | accessSlot => exact ⟨htop, hbelow⟩

end

theorem layered (hs : Layered (.undo b) (Sound keccak codes) db es)
    (hb : ContentAddressed keccak codes b)
    (hcode : ∀ a h c, codeOk a h c → keccak c = h ∧ c ∈ codes) :
    Layered (.undo b) (Sound keccak codes) db' (es' ++ es) :=
  h.layered_of hs.head (fun _ _ _ hsim hsound => hsound.similar hb hsim) hs
    (h.sound hs.head hb hcode)

end Change

theorem Changes.restores {db db' : StateDB} {es es' : List JournalEntry}
    (h : Changes b codeOk resetOk db es' db') (hs : Layered (.undo b) (Sound keccak codes) db es)
    (hb : ContentAddressed keccak codes b)
    (hcode : ∀ a h c, codeOk a h c → keccak c = h ∧ c ∈ codes) :
    Layered (.undo b) (Sound keccak codes) db' (es' ++ es) ∧
      db.Similar b (unwind (.undo b) db' es') := by
  induction h with
  | refl => exact ⟨hs, .refl⟩
  | tail _ hchange ih =>
    obtain ⟨hlayered, hsim⟩ := ih
    refine ⟨?_, ?_⟩
    · rw [append_assoc]
      exact hchange.layered hlayered hb hcode
    · exact (StateDB.Similar.respects b).restores_trans (fun _ _ _ h h' => h.trans h') hsim
        (hchange.restores hlayered.head)

end

/-! ## Commits leave the journal undoable -/

/-- `o'` is `o` with other committed slots, all of them slots that `o` has written. -/
def FlushedObject (o o' : StateObject) : Prop :=
  ∃ t : Storage, o' = { o with transientStorage := t } ∧
    ∀ key, t key ≠ none → o.transientStorage key ≠ none ∨ o.dirtyStorage key ≠ none

theorem FlushedObject.refl (o : StateObject) : FlushedObject o o :=
  ⟨o.transientStorage, rfl, fun _ h => .inl h⟩

variable {o o' : StateObject}

theorem FlushedObject.trans {o'' : StateObject} (h : FlushedObject o o')
    (h' : FlushedObject o' o'') : FlushedObject o o'' := by
  obtain ⟨_, rfl, ht⟩ := h
  obtain ⟨t', rfl, ht'⟩ := h'
  refine ⟨t', rfl, ?_⟩
  intro key hkey
  cases ht' key hkey with
  | inl htrans => exact ht key htrans
  | inr hdirty => exact .inr hdirty

theorem FlushedObject.ok {keccak : List UInt8 → Hash} {codes : Set (List UInt8)}
    (h : FlushedObject o o') (ho : o.Ok keccak codes) : o'.Ok keccak codes := by
  obtain ⟨_, rfl, ht⟩ := h
  refine ⟨ho.origin, ?_, ho.code⟩
  intro key hkey
  cases ht key hkey with
  | inl htrans => exact ho.dirty key htrans
  | inr hdirty => exact hdirty

theorem StateObject.flushedObject (o : StateObject) : FlushedObject o o.flushed := by
  unfold flushed
  split
  · exact .refl o
  refine ⟨_, rfl, ?_⟩
  intro key hkey
  cases hdirty : o.dirtyStorage key with
  | some value => exact .inr (some_ne_none value)
  | none =>
    rw [committedSlot, hdirty, none_or] at hkey
    exact .inl hkey

namespace StateDB

/-- The objects of `db'` are those of `db` with other committed slots. -/
structure OnlyFlushed (db db' : StateDB) : Prop where
  objects : ∀ a, Option.Rel FlushedObject (db.stateObjects a) (db'.stateObjects a)
  refund : db'.refund = db.refund
  logs : db'.logs = db.logs
  accessList : db'.accessList = db.accessList

namespace OnlyFlushed

variable {db db' db'' : StateDB} {a : Address}

theorem refl (db : StateDB) : OnlyFlushed db db where
  objects a := by
    cases db.stateObjects a with
    | none => exact .none
    | some o => exact .some (.refl o)
  refund := rfl
  logs := rfl
  accessList := rfl

theorem trans (h : OnlyFlushed db db') (h' : OnlyFlushed db' db'') : OnlyFlushed db db'' where
  objects a := optionRel_trans (fun _ _ _ => .trans) (h.objects a) (h'.objects a)
  refund := h'.refund.trans h.refund
  logs := h'.logs.trans h.logs
  accessList := h'.accessList.trans h.accessList

variable {o : StateObject}

theorem of_some (h : OnlyFlushed db db') (ho : db.stateObjects a = some o) :
    ∃ o', db'.stateObjects a = some o' ∧ FlushedObject o o' := by
  have hrel := h.objects a
  rw [ho] at hrel
  generalize db'.stateObjects a = y at hrel
  cases hrel with
  | some hflushed => exact ⟨_, rfl, hflushed⟩

variable {o' : StateObject}

section

variable (h : OnlyFlushed db db')

include h

theorem to_some (ho' : db'.stateObjects a = some o') :
    ∃ o, db.stateObjects a = some o ∧ FlushedObject o o' := by
  have hrel := h.objects a
  rw [ho'] at hrel
  generalize db.stateObjects a = x at hrel
  cases hrel with
  | some hflushed => exact ⟨_, rfl, hflushed⟩

theorem isSome (hsome : (db.stateObjects a).isSome) : (db'.stateObjects a).isSome := by
  obtain ⟨_, ho⟩ := isSome_iff_exists.mp hsome
  obtain ⟨_, ho', -⟩ := h.of_some ho
  rw [ho']
  rfl

theorem setStateObject (ho : FlushedObject o o') :
    OnlyFlushed (db.setStateObject a o) (db'.setStateObject a o') where
  __ := h
  objects x := by
    rw [stateObjects_set, stateObjects_set]
    split
    · exact .some ho
    · exact h.objects x

end

theorem set (ho : db.stateObjects a = some o) (hflushed : FlushedObject o o') :
    OnlyFlushed db (db.setStateObject a o') where
  objects x := by
    rw [stateObjects_set]
    split
    · rename_i hx
      rw [hx, ho]
      exact .some hflushed
    · exact (refl db).objects x
  refund := rfl
  logs := rfl
  accessList := rfl

theorem modifyObject (h : OnlyFlushed db db') (hcached : (db.stateObjects a).isSome)
    {f : StateObject → StateObject} (hf : ∀ o o', FlushedObject o o' → FlushedObject (f o) (f o'))
    (b b' : Backend) : OnlyFlushed (db.modifyObject b a f) (db'.modifyObject b' a f) := by
  obtain ⟨o, ho⟩ := isSome_iff_exists.mp hcached
  obtain ⟨o', ho', hflushed⟩ := h.of_some ho
  simp only [StateDB.modifyObject, find?_of_stateObjects b db a ho,
    find?_of_stateObjects b' db' a ho']
  exact h.setStateObject (hf o o' hflushed)

end OnlyFlushed

end StateDB

variable {keccak : List UInt8 → Hash} {codes : Set (List UInt8)} {db db' : StateDB}
  {es : List JournalEntry} {b : Backend}

theorem Sound.onlyFlushed (hs : Sound keccak codes db es) (h : db.OnlyFlushed db') :
    Sound keccak codes db' es := by
  refine ⟨?_, ?_, ?_, ?_⟩
  · intro a _ ho'
    obtain ⟨o, ho, hflushed⟩ := h.to_some ho'
    exact hflushed.ok (hs.objects a o ho)
  · intro e he a ha
    exact h.isSome (hs.present e he a ha)
  · rw [h.accessList]
    exact hs.access
  intro e es' hes
  refine (hs.applies e es' hes).transfer ?_ h.logs h.accessList
  intro _ _ ho
  obtain ⟨_, ho', _, rfl, -⟩ := h.of_some ho
  exact ⟨_, ho', fun _ hdirty => hdirty⟩

theorem Sound.undo_onlyFlushed {e : JournalEntry} (hs : Sound keccak codes db (e :: es))
    (h : db.OnlyFlushed db') (b b' : Backend) : (db.undo b e).OnlyFlushed (db'.undo b' e) := by
  have hcached : ∀ a, e.account = some a → (db.stateObjects a).isSome :=
    hs.present e mem_cons_self
  cases e with
  | createObject =>
    refine ⟨?_, h.refund, h.logs, h.accessList⟩
    intro x
    simp only [undo, update_apply]
    split
    · exact .none
    · exact h.objects x
  | resetObject _ prev => exact h.setStateObject (.refl prev)
  | suicide a prev prevBalance | balance a prev | nonce a prev | code a prevCode prevHash =>
    refine h.modifyObject (hcached a rfl) ?_ b b'
    rintro o o' ⟨t, rfl, ht⟩
    exact ⟨t, rfl, ht⟩
  | storage a _ prevValue =>
    refine h.modifyObject (hcached a rfl) ?_ b b'
    rintro _ _ ⟨t, rfl, ht⟩
    refine ⟨t, rfl, ?_⟩
    intro x hx
    refine (ht x hx).imp_right ?_
    intro hdirty
    simp only [StateObject.setState, update_apply]
    split
    · exact some_ne_none prevValue
    · exact hdirty
  | refund => exact ⟨h.objects, rfl, h.logs, h.accessList⟩
  | addLog => exact ⟨h.objects, h.refund, congrArg List.dropLast h.logs, h.accessList⟩
  | accessListAddAccount a =>
    exact ⟨h.objects, h.refund, h.logs, congrArg (AccessList.deleteAddress · a) h.accessList⟩
  | accessListAddSlot a slot =>
    exact ⟨h.objects, h.refund, h.logs, congrArg (AccessList.deleteSlot · a slot) h.accessList⟩

theorem layered_onlyFlushed (hs : Layered (.undo b) (Sound keccak codes) db es)
    (h : db.OnlyFlushed db') (b' : Backend) : Layered (.undo b') (Sound keccak codes) db' es :=
  hs.map (fun _ _ _ hrel hsound => hsound.onlyFlushed hrel)
    (fun _ _ _ _ hrel hsound => hsound.undo_onlyFlushed hrel b b') h

theorem StateObject.Ok.contentAddressed_flush (ho : o.Ok keccak codes)
    (hb : ContentAddressed keccak codes b) (k : Keeper) (refuses : Refusal) (a : Address) :
    ContentAddressed keccak codes ((o.flush k refuses a).run b).1 := by
  intro h c hc
  rw [o.flush_code] at hc
  split at hc
  · exact hb h c hc
  rcases o.writeCode_cases b with ⟨hrun, -⟩ | ⟨_, hcode, hrun⟩
  · rw [hrun] at hc
    exact hb h c hc
  rw [hrun] at hc
  simp only [update_apply] at hc
  split at hc
  · rename_i hh
    split at hc
    · cases hc
    rename_i hne
    cases hc
    obtain ⟨-, hhash, hmem⟩ := ho.code c hcode
    exact ⟨hhash.trans hh.symm, hmem, hne⟩
  · exact hb h c hc

theorem commitAll_keeps (k : Keeper) (refuses : Refusal) (ds : List Address)
    (hobjs : ∀ a o, db.stateObjects a = some o → o.Ok keccak codes)
    (hb : ContentAddressed keccak codes b) :
    let r := ((commitAll k refuses ds).run (db, b)).1
    db.OnlyFlushed r.1 ∧ r.1.journal = db.journal ∧ r.1.validRevisions = db.validRevisions ∧
      r.1.nextRevisionID = db.nextRevisionID ∧ ContentAddressed keccak codes r.2 := by
  induction ds generalizing db b with
  | nil => exact ⟨.refl db, rfl, rfl, rfl, hb⟩
  | cons a _ ih =>
    cases ho : db.stateObjects a with
    | none =>
      rw [run_commitAll_of_none k refuses ho]
      exact ih hobjs hb
    | some o =>
      rw [run_commitAll_of_some k refuses ho]
      have hstored := (hobjs a o ho).contentAddressed_flush hb k refuses a
      rcases hrun : (o.flush k refuses a).run b with ⟨_, _ | ⟨⟩⟩
      · rw [hrun] at hstored
        exact ⟨.refl db, rfl, rfl, rfl, hstored⟩
      rw [hrun] at hstored
      have hset := StateDB.OnlyFlushed.set ho o.flushedObject
      have hobjs₁ : ∀ x ox, (db.setStateObject a o.flushed).stateObjects x = some ox →
          ox.Ok keccak codes := by
        intro x _ hox
        obtain ⟨o', ho', hflushed⟩ := hset.to_some hox
        exact hflushed.ok (hobjs x o' ho')
      obtain ⟨hrest, hkept⟩ := ih hobjs₁ hstored
      exact ⟨hset.trans hrest, hkept⟩

end HyperPax.Evm
