/-
  Evm/Coherence.lean --- what the keeper and the StateDB have to do with each other.

  Stateful precompiles commit the StateDB inside a call frame.  The keeper then holds
  what the frame has written, the journal still lists how to undo it, and the committed
  values are remembered in the objects' transient slots.

  `Coherent` is what holds between commits: what an object remembers of the keeper is
  what the keeper holds, and an object that is not dirty shows what the keeper holds.  The
  calls that change objects keep it at every depth of the journal down to the last
  commit.  A revert to before the last commit keeps it only if the accounts whose
  objects it changes are still dirty afterwards: the next commit does not look at the
  others.
-/
import HyperPax.Evm.Revert

set_option autoImplicit false

namespace HyperPax.Evm

open Lib StateDB List JournalEntry

/-! ## Objects and the keeper -/

/-- What the object remembers of its slots in the keeper. -/
structure Slots (b : Backend) (a : Address) (o : StateObject) : Prop where
  transient : ∀ key value, o.transientStorage key = some value → b.storage a key = value
  origin : ∀ key value, o.transientStorage key = none → o.originStorage key = some value →
    b.storage a key = value

/-- The keeper holds what the object shows. -/
structure Matches (b : Backend) (a : Address) (o : StateObject) : Prop where
  account : b.getAccount a = some o.account
  dirty : ∀ key value, o.dirtyStorage key = some value → b.storage a key = value
  code : ∀ c, o.code = some c → (b.code o.account.codeHash).getD [] = c

/-- An account that has no place for a code hash. -/
def NonEth (b : Backend) (a : Address) : Prop := (b.accounts a).any (·.codeHash.isNone)
deriving Decidable

/-- The StateDB with the journal `es`, the keeper, and the keeper at the start. -/
structure Coherent (b₀ b : Backend) (db : StateDB) (es : List JournalEntry) : Prop where
  slots : ∀ a o, db.stateObjects a = some o → o.suicided = false → Slots b a o
  clean : ∀ a o, db.stateObjects a = some o → a ∉ es.filterMap dirtied →
    o.suicided = false ∧ Matches b a o
  untouched : ∀ a, db.stateObjects a = none →
    b.accounts a = b₀.accounts a ∧ b.bank a = b₀.bank a ∧ b.storage a = b₀.storage a
  plain : ∀ a o, db.stateObjects a = some o → NonEth b a → o.account.codeHash = emptyCodeHash
  coded : ∀ a code codeHash, .code a code codeHash ∈ es → ¬ NonEth b a

variable {keccak : List UInt8 → Hash} {codes : Set (List UInt8)} {b₀ b : Backend} {a : Address}
  {o o' : StateObject} {account : Account} {e : JournalEntry} {es : List JournalEntry}

theorem Slots.newObject (account : Account) : Slots b a (newObject account) where
  transient _ _ h := by cases h
  origin _ _ _ h := by cases h

theorem Slots.similar (h : Slots b a o) (hsim : SimilarObject b a o o') : Slots b a o' := by
  refine ⟨?_, ?_⟩
  · rw [hsim.transient]
    exact h.transient
  intro key value htrans horigin
  rw [hsim.transient] at htrans
  cases hsim.origin key with
  | inl hsame =>
    rw [hsame] at horigin
    exact h.origin key value htrans horigin
  | inr hloaded =>
    rw [hloaded.2] at horigin
    exact Option.some.inj horigin

theorem Matches.newObject (h : b.getAccount a = some account) :
    Matches b a (newObject account) where
  account := h
  dirty _ _ h := by cases h
  code _ h := by cases h

theorem Matches.similar (h : Matches b a o) (hslots : Slots b a o)
    (hsim : SimilarObject b a o o') : Matches b a o' := by
  refine ⟨?_, ?_, ?_⟩
  · rw [hsim.account]
    exact h.account
  · intro key value hvalue
    cases hsim.dirty key with
    | inl hsame =>
      rw [hsame] at hvalue
      exact h.dirty key value hvalue
    | inr hnew =>
      obtain ⟨-, htrans, -, heq⟩ := hnew
      rw [hvalue] at heq
      rw [← hsim.transient] at htrans
      exact (hslots.similar hsim).origin key value htrans heq.symm
  · intro c hc
    rw [hsim.account]
    cases hsim.code with
    | inl hsame =>
      rw [hsame.1] at hc
      exact h.code c hc
    | inr hloaded =>
      rw [hloaded.1, StateObject.getCode] at hc
      split at hc
      · rename_i c' hcode
        cases hc
        exact h.code c hcode
      split at hc
      · cases hc
      · rw [hc]
        rfl

theorem NonEth.getAccount (h : NonEth b a) (hacc : b.getAccount a = some account) :
    account.codeHash = emptyCodeHash := by
  obtain ⟨acct, hacct, rfl⟩ := Option.map_eq_some_iff.mp hacc
  unfold NonEth at h
  rw [hacct] at h
  have hnone : acct.codeHash = none := by simpa using h
  simp [hnone]

theorem not_mem_dirtied_of_cons {x : Address} (h : x ∉ (e :: es).filterMap dirtied) :
    x ∉ es.filterMap dirtied ∧ e.dirtied ≠ some x := by
  rw [filterMap_cons] at h
  cases hdirt : e.dirtied with
  | none =>
    rw [hdirt] at h
    exact ⟨h, fun h => by cases h⟩
  | some =>
    rw [hdirt] at h
    obtain ⟨hne, hrest⟩ := ne_and_not_mem_of_not_mem_cons h
    exact ⟨hrest, fun h => hne (Option.some.inj h).symm⟩

namespace Coherent

variable {db db' : StateDB} {es : List JournalEntry}

section

variable (h : Coherent b₀ b db es)

include h

theorem find? (hfind : db.find? b a = some o) : (o.suicided = false → Slots b a o) ∧
      (a ∉ es.filterMap dirtied → o.suicided = false ∧ Matches b a o) ∧
      (NonEth b a → o.account.codeHash = emptyCodeHash) := by
  unfold StateDB.find? at hfind
  split at hfind
  · rename_i o' hcached
    cases hfind
    exact ⟨h.slots a o hcached, h.clean a o hcached, h.plain a o hcached⟩
  · obtain ⟨account, hacc, rfl⟩ := Option.map_eq_some_iff.mp hfind
    exact ⟨fun _ => .newObject account, fun _ => ⟨rfl, .newObject hacc⟩,
      fun hnon => hnon.getAccount hacc⟩

theorem similar (hsim : db.Similar b db') : Coherent b₀ b db' es := by
  refine ⟨?_, ?_, ?_, ?_, h.coded⟩
  · intro a o' ho' halive
    obtain ⟨o, ho, hso⟩ := hsim.object ho'
    exact ((h.find? ho).1 (hso.suicided.symm.trans halive)).similar hso
  · intro a o' ho' hclean
    obtain ⟨o, ho, hso⟩ := hsim.object ho'
    obtain ⟨hslots, hmatches, -⟩ := h.find? ho
    obtain ⟨halive, hm⟩ := hmatches hclean
    exact ⟨hso.suicided.trans halive, hm.similar (hslots halive) hso⟩
  · intro a hnone
    refine h.untouched a ?_
    cases hcached : db.stateObjects a with
    | none => rfl
    | some =>
      have hsome := hsim.cached a (by rw [hcached]; rfl)
      rw [hnone] at hsome
      cases hsome
  · intro a o' ho' hnon
    obtain ⟨_, ho, hso⟩ := hsim.object ho'
    rw [hso.account]
    exact (h.find? ho).2.2 hnon

theorem set {es' : List JournalEntry}
    (hdirty : ∀ x, x ≠ a → x ∉ es'.filterMap dirtied →
      x ∉ es.filterMap dirtied) (hslots : o.suicided = false → Slots b a o)
    (hclean : a ∉ es'.filterMap dirtied → o.suicided = false ∧ Matches b a o)
    (hplain : NonEth b a → o.account.codeHash = emptyCodeHash)
    (hcoded : ∀ x code codeHash, .code x code codeHash ∈ es' → ¬ NonEth b x)
    (hother : ∀ x, x ≠ a → db'.stateObjects x = db.stateObjects x)
    (hself : db'.stateObjects a = some o) : Coherent b₀ b db' es' := by
  refine ⟨?_, ?_, ?_, ?_, hcoded⟩
  · intro x ox hox
    by_cases hx : x = a
    · subst hx
      rw [hself] at hox
      cases hox
      exact hslots
    · rw [hother x hx] at hox
      exact h.slots x ox hox
  · intro x ox hox hxclean
    by_cases hx : x = a
    · subst hx
      rw [hself] at hox
      cases hox
      exact hclean hxclean
    · rw [hother x hx] at hox
      exact h.clean x ox hox (hdirty x hx hxclean)
  · intro x hnone
    have hx : x ≠ a := by
      rintro rfl
      rw [hself] at hnone
      cases hnone
    rw [hother x hx] at hnone
    exact h.untouched x hnone
  · intro x ox hox
    by_cases hx : x = a
    · subst hx
      rw [hself] at hox
      cases hox
      exact hplain
    · rw [hother x hx] at hox
      exact h.plain x ox hox

end

variable {e : JournalEntry}

theorem push (h : Coherent b₀ b db es) (hslots : o.suicided = false → Slots b a o)
    (hclean : e.dirtied ≠ some a → a ∉ es.filterMap dirtied →
      o.suicided = false ∧ Matches b a o) (hplain : NonEth b a → o.account.codeHash = emptyCodeHash)
    (hcoded : ∀ x code codeHash, e = .code x code codeHash → ¬ NonEth b x) :
    Coherent b₀ b ((db.append e).setStateObject a o) (e :: es) := by
  refine h.set (a := a) (o := o) ?_ hslots ?_ hplain ?_ ?_ ?_
  · exact fun x _ hx => (not_mem_dirtied_of_cons hx).1
  · exact fun hx => hclean (not_mem_dirtied_of_cons hx).2 (not_mem_dirtied_of_cons hx).1
  · intro x code codeHash hmem
    cases mem_cons.mp hmem with
    | inl hself => exact hcoded x code codeHash hself.symm
    | inr hrest => exact h.coded x code codeHash hrest
  · intro _ hx
    rw [stateObjects_set, if_neg hx, stateObjects_append]
  · rw [stateObjects_set, if_pos rfl]

theorem push_other (h : Coherent b₀ b db es) (he : e.account = none)
    (hobjs : db'.stateObjects = db.stateObjects) : Coherent b₀ b db' (e :: es) := by
  have hdirt : e.dirtied = none := by cases e <;> first | exact he | cases he
  have hsame : (e :: es).filterMap dirtied = es.filterMap dirtied := by rw [filterMap_cons, hdirt]
  refine ⟨?_, ?_, ?_, ?_, ?_⟩
  · rw [hobjs]
    exact h.slots
  · rw [hobjs, hsame]
    exact h.clean
  · rw [hobjs]
    exact h.untouched
  · rw [hobjs]
    exact h.plain
  intro a code codeHash hmem
  cases mem_cons.mp hmem with
  | inl hself =>
    rw [← hself] at he
    cases he
  | inr hrest => exact h.coded a code codeHash hrest

end Coherent

/-! ## Calls -/

/-- A replaced object is dirty, or is that of an account with nonce zero and no code. -/
def ResetOk (db : StateDB) (a : Address) (prev : StateObject) : Prop :=
  db.Dirty a ∨ (prev.account.nonce = 0 ∧ prev.account.codeHash = emptyCodeHash)
deriving Decidable

variable (keccak codes b) in
/-- Code is set where there is a place for its hash. -/
def CodeOk (a : Address) (h : Hash) (c : List UInt8) : Prop :=
  CodeIn keccak codes a h c ∧ ¬ NonEth b a

theorem FieldChange.coherent (h : FieldChange b (CodeOk keccak codes b) a o e o') :
    (o'.suicided = false → o.suicided = false ∧ (Slots b a o → Slots b a o')) ∧ e.dirtied = some a ∧
      (NonEth b a → o.account.codeHash = emptyCodeHash → o'.account.codeHash = emptyCodeHash) ∧
      ∀ x code codeHash, e = .code x code codeHash → ¬ NonEth b x := by
  cases h with
  | balance amount | nonce nonce | storage key value hslot =>
    exact ⟨fun h => ⟨h, fun hs => ⟨hs.transient, hs.origin⟩⟩, rfl, fun _ h => h, nofun⟩
  | code _ _ hok =>
    refine ⟨fun h => ⟨h, fun hs => ⟨hs.transient, hs.origin⟩⟩, rfl,
      fun hnon => absurd hnon hok.2, ?_⟩
    intro _ _ _ he
    cases he
    exact hok.2
  | suicide => exact ⟨nofun, rfl, fun _ h => h, nofun⟩

variable {db : StateDB}

theorem Change.coherent {db' : StateDB} (h : Change b (CodeOk keccak codes b) ResetOk db es db')
    (hs : Sound keccak codes db db.journal) (hc : Coherent b₀ b db db.journal) :
    Coherent b₀ b db' db'.journal := by
  have hrestores := h.restores hs
  cases h with
  | load hfind | slot hcached horigin => exact hc.similar hrestores
  | @create a hfind =>
    exact hc.push (fun _ => .newObject _) (fun hne => absurd rfl hne) (fun _ => rfl) nofun
  | @reset a prev hfind hok =>
    refine hc.push (fun _ => ⟨nofun, nofun⟩) ?_ (fun _ => rfl) nofun
    -- the journal does not show the reset, so the keeper has to have the new account already
    intro _ hnot
    obtain ⟨hnonce, hhash⟩ := hok.resolve_left hnot
    obtain ⟨-, hmatches⟩ := (hc.find? hfind).2.1 hnot
    refine ⟨rfl, ?_, nofun, nofun⟩
    have hacc : (⟨0, prev.account.balance, emptyCodeHash⟩ : Account) = prev.account := by
      rw [← hnonce, ← hhash]
    rw [hmatches.account, ← hacc]
    rfl
  | @field a o o' e hcached hfield =>
    obtain ⟨hslots, hdirt, hplain, hcode⟩ := hfield.coherent
    refine hc.push ?_ (fun hne => absurd hdirt hne) ?_ hcode
    · intro halive
      exact (hslots halive).2 (hc.slots a o hcached (hslots halive).1)
    · exact fun hnon => hplain hnon (hc.plain a o hcached hnon)
  | refund gas | log log | address haddr | accessSlot haddr hnew => exact hc.push_other rfl rfl

/-- Coherence at every depth down to the last `flushed` entries. -/
def CoherentDownTo (flushed : Nat) (b₀ b : Backend) (db : StateDB) (es : List JournalEntry) :
    Prop :=
  Layered (.undo b) (fun db es => flushed ≤ es.length → Coherent b₀ b db es) db es

namespace CoherentDownTo

variable {flushed : Nat} {db db' : StateDB} {es : List JournalEntry}

theorem similar (h : CoherentDownTo flushed b₀ b db es) (hsim : db.Similar b db') :
    CoherentDownTo flushed b₀ b db' es :=
  .map (fun _ _ _ hsim hc hle => (hc hle).similar hsim)
    (fun _ _ e _ hsim _ => hsim.undo e) hsim h

theorem changes (h : CoherentDownTo flushed b₀ b db db.journal)
    (hchanges : Changes b (CodeOk keccak codes b) ResetOk db es db')
    (hs : Layered (.undo b) (Sound keccak codes) db db.journal)
    (hb : ContentAddressed keccak codes b) (hle : flushed ≤ db.journal.length) :
    CoherentDownTo flushed b₀ b db' db'.journal := by
  have hcode : ∀ a h c, CodeOk keccak codes b a h c → keccak c = h ∧ c ∈ codes :=
    fun _ _ _ hok => hok.1
  induction hchanges with
  | refl => exact h
  | @tail es es' db₁ db₂ hbefore hchange ih =>
    have hjournal := hbefore.journal.1
    have hle₁ : flushed ≤ db₁.journal.length := by
      rw [hjournal, length_append]
      exact Nat.le_add_left_of_le hle
    have hs₁ : Layered (.undo b) (Sound keccak codes) db₁ db₁.journal := by
      rw [hjournal]
      exact (hbefore.restores hs hb hcode).1
    have htop := hchange.coherent hs₁.head (ih.head hle₁)
    rw [hchange.journal.1] at htop ⊢
    exact hchange.layered_of hs₁.head (fun _ _ _ hsim hc hle => (hc hle).similar hsim) ih
      fun _ => htop

end CoherentDownTo

/-! ## Reverts behind a commit -/

/-- The entry can be undone behind a commit: it changes a field of an object whose account is
still dirty by the entries in `rest`, or no object at all. -/
def JournalEntry.StaysDirty (rest : List JournalEntry) : JournalEntry → Prop
  | .createObject _ => False
  | .resetObject _ _ => False
  | .suicide _ _ _ => False
  | .balance a _ => a ∈ rest.filterMap dirtied
  | .nonce a _ => a ∈ rest.filterMap dirtied
  | .storage a _ _ => a ∈ rest.filterMap dirtied
  | .code a _ _ => a ∈ rest.filterMap dirtied
  | _ => True

instance (rest : List JournalEntry) (e : JournalEntry) : Decidable (e.StaysDirty rest) := by
  unfold JournalEntry.StaysDirty
  split <;> infer_instance

namespace Coherent

variable {db : StateDB} {es rest : List JournalEntry}

variable {e : JournalEntry}

theorem modifyObject (h : Coherent b₀ b db es) (hes : es = e :: rest)
    (hdirty : a ∈ rest.filterMap dirtied) (hdirt : e.dirtied = some a)
    (hcached : (db.stateObjects a).isSome) {f : StateObject → StateObject}
    (hf : ∀ o, (f o).suicided = o.suicided ∧ (f o).transientStorage = o.transientStorage ∧
      (f o).originStorage = o.originStorage)
    (hplain : NonEth b a → ∀ o, o.account.codeHash = emptyCodeHash →
      (f o).account.codeHash = emptyCodeHash) : Coherent b₀ b (db.modifyObject b a f) rest := by
  obtain ⟨o, ho⟩ := Option.isSome_iff_exists.mp hcached
  simp only [StateDB.modifyObject, find?_of_stateObjects b db a ho]
  obtain ⟨hsuicided, htrans, horigin⟩ := hf o
  refine h.set (a := a) (o := f o) ?_ ?_ (fun hclean => absurd hdirty hclean) ?_ ?_ ?_ ?_
  · intro x hx hclean
    rw [hes, filterMap_cons, hdirt]
    exact not_mem_cons_of_ne_of_not_mem hx hclean
  · intro halive
    have hslots := h.slots a o ho (hsuicided.symm.trans halive)
    refine ⟨?_, ?_⟩
    · rw [htrans]
      exact hslots.transient
    · rw [htrans, horigin]
      exact hslots.origin
  · exact fun hnon => hplain hnon o (h.plain a o ho hnon)
  · intro x code codeHash hmem
    refine h.coded x code codeHash ?_
    rw [hes]
    exact mem_cons_of_mem e hmem
  · intro _ hx
    rw [stateObjects_set, if_neg hx]
  · rw [stateObjects_set, if_pos rfl]

theorem pop_other {db' : StateDB} (h : Coherent b₀ b db (e :: rest)) (he : e.dirtied = none)
    (hobjs : db'.stateObjects = db.stateObjects) : Coherent b₀ b db' rest := by
  have hsame : (e :: rest).filterMap dirtied =
      rest.filterMap dirtied := by
    rw [filterMap_cons, he]
  refine ⟨?_, ?_, ?_, ?_, ?_⟩
  · rw [hobjs]
    exact h.slots
  · rw [hobjs, ← hsame]
    exact h.clean
  · rw [hobjs]
    exact h.untouched
  · rw [hobjs]
    exact h.plain
  · exact fun x code codeHash hmem => h.coded x code codeHash (mem_cons_of_mem e hmem)

theorem undo (h : Coherent b₀ b db (e :: es)) (hs : Sound keccak codes db (e :: es))
    (hstays : e.StaysDirty rest)
    (hrest : ∀ x, x ∈ rest.filterMap dirtied → x ∈ es.filterMap dirtied) :
    Coherent b₀ b (db.undo b e) es := by
  have hcached : ∀ a, e.account = some a → (db.stateObjects a).isSome :=
    hs.present e mem_cons_self
  cases e with
  | createObject | resetObject | suicide => cases hstays
  | balance a prev | nonce a prev | storage a key prevValue =>
    exact h.modifyObject rfl (hrest a hstays) rfl (hcached a rfl) (fun _ => ⟨rfl, rfl, rfl⟩)
      fun _ _ hhash => hhash
  | code a prevCode prevHash =>
    exact h.modifyObject rfl (hrest a hstays) rfl (hcached a rfl) (fun _ => ⟨rfl, rfl, rfl⟩)
      fun hnon => absurd hnon (h.coded a prevCode prevHash mem_cons_self)
  | refund prev | addLog | accessListAddAccount a | accessListAddSlot a slot =>
    exact h.pop_other rfl rfl

theorem unwind (h : Coherent b₀ b db (es ++ rest))
    (hs : Layered (.undo b) (Sound keccak codes) db (es ++ rest))
    (hstays : ∀ e ∈ es, e.StaysDirty rest) : Coherent b₀ b (Lib.unwind (.undo b) db es) rest := by
  induction es generalizing db with
  | nil => exact h
  | cons e es ih =>
    have hrest : ∀ x, x ∈ rest.filterMap dirtied →
        x ∈ (es ++ rest).filterMap dirtied := by
      intro _ hx
      rw [filterMap_append]
      exact mem_append_right _ hx
    exact ih (h.undo hs.1 (hstays e mem_cons_self) hrest) hs.2
      fun e' he' => hstays e' (mem_cons_of_mem e he')

end Coherent

theorem CoherentDownTo.revert {flushed : Nat} (h : CoherentDownTo flushed b₀ b db db.journal)
    (hs : Layered (.undo b) (Sound keccak codes) db db.journal)
    (hle : flushed ≤ db.journal.length) (index : Nat) (validRevisions : List (Nat × Nat))
    (hstays : ∀ e ∈ (db.journal.drop (db.journal.length - flushed)).take (flushed - index),
      e.StaysDirty (db.journal.drop (db.journal.length - index))) :
    CoherentDownTo (min flushed (db.revert b index).journal.length) b₀ b
      { db.revert b index with validRevisions := validRevisions } (db.revert b index).journal := by
  have hjournal : (db.revert b index).journal = db.journal.drop (db.journal.length - index) := rfl
  have hlength : (db.revert b index).journal.length =
      db.journal.length - (db.journal.length - index) := by
    rw [hjournal, length_drop]
  by_cases hshort : flushed ≤ (db.revert b index).journal.length
  · rw [Nat.min_eq_left hshort]
    have hsplit : CoherentDownTo flushed b₀ b db
        (db.journal.take (db.journal.length - index) ++
          db.journal.drop (db.journal.length - index)) := by
      rw [take_append_drop]
      exact h
    exact .similar hsplit.unwind (StateDB.Similar.refl.bookkeeping _ _ _)
  rw [Nat.min_eq_right (Nat.le_of_not_le hshort)]
  refine Layered.of_head ?_ fun _ => ?_
  · exact fun _ _ hlt hge => absurd hge (Nat.not_le_of_lt hlt)
  -- first the entries since the commit, then those behind it
  have hcount : db.journal.length - index =
      (db.journal.length - flushed) + (flushed - index) := by
    omega
  have hdrop : db.journal.drop (db.journal.length - index) =
      (db.journal.drop (db.journal.length - flushed)).drop (flushed - index) := by
    rw [drop_drop, hcount]
  have htake : db.journal.take (db.journal.length - index) =
      db.journal.take (db.journal.length - flushed) ++
        (db.journal.drop (db.journal.length - flushed)).take (flushed - index) := by
    rw [hcount, take_add]
  have hcommitted : (db.journal.drop (db.journal.length - flushed)).length = flushed := by
    rw [length_drop]
    omega
  have hcut := take_append_drop (flushed - index)
    (db.journal.drop (db.journal.length - flushed))
  have hall := take_append_drop (db.journal.length - flushed) db.journal
  rw [← hall] at h hs
  have hs' := hs.unwind
  have hc := (Layered.unwind h).head hcommitted.ge
  rw [← hcut] at hs' hc
  have hlast := hc.unwind hs' (hdrop ▸ hstays)
  rw [← hdrop, ← unwind_append, ← htake] at hlast
  exact hlast.similar (StateDB.Similar.refl.bookkeeping _ _ _)

end HyperPax.Evm
