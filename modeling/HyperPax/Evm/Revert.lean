/-
  Evm/Revert.lean --- reverting to a snapshot.

  A session is a StateDB over a keeper, taken from its creation through calls, commits and
  changes that others make to the keeper.  From any state of a session, a snapshot, a run
  of calls and the revert to that snapshot leave what every getter returns and what the
  next commit writes as they were.  That needs the hash of code to be injective on the
  codes that occur: a revert marks the code of an object as set, so that the commit
  writes it once more under its hash.
-/
import HyperPax.Evm.Sound
import HyperPax.Lib.Transition

set_option autoImplicit false

namespace HyperPax.Evm

open Lib Action StateDB List Function Option

/-! ## Commits of similar StateDBs -/

section

variable {keccak : List UInt8 → Hash} {codes : Set (List UInt8)} {b b' : Backend} {a : Address}
  {o o' : StateObject}

/-- The codes of `b` are still there. -/
def KeepsCode (b b' : Backend) : Prop := ∀ h c, b.code h = some c → b'.code h = some c

theorem StateObject.Ok.keepsCode_flush (ho : o.Ok keccak codes) (hinj : Set.InjOn keccak codes)
    (hb : ContentAddressed keccak codes b) (hkeep : KeepsCode b b') (k : Keeper)
    (refuses : Refusal) (a : Address) : KeepsCode b ((o.flush k refuses a).run b').1 := by
  intro h c hc
  rw [o.flush_code]
  split
  · exact hkeep h c hc
  rcases o.writeCode_cases b' with ⟨hrun, -⟩ | ⟨c', hcode, hrun⟩
  · rw [hrun]
    exact hkeep h c hc
  rw [hrun]
  simp only [update_apply]
  split
  · rename_i hh
    obtain ⟨hhash, hmem, hne⟩ := hb h c hc
    obtain ⟨-, hhash', hmem'⟩ := ho.code c' hcode
    obtain rfl : c' = c := hinj hmem' hmem (by rw [hhash', hhash, hh])
    rw [if_neg hne]
  · exact hkeep h c hc

section

variable (h : SimilarObject b a o o') (ho : o.Ok keccak codes)

include h ho

theorem SimilarObject.committedSlot_eq (key : Hash) :
    o'.committedSlot key = o.committedSlot key := by
  unfold StateObject.committedSlot
  rw [h.transient]
  cases h.dirty key with
  | inl hsame =>
    rw [hsame]
    cases hdirty : o.dirtyStorage key with
    | none => rfl
    | some value =>
      have horigin := ho.origin key (by rw [hdirty]; exact some_ne_none value)
      obtain ⟨_, horiginal⟩ := ne_none_iff_exists'.mp horigin
      rw [horiginal, h.origin_of_some horiginal]
  | inr hnew =>
    obtain ⟨hnone, htrans, hsome, heq⟩ := hnew
    obtain ⟨_, hvalue⟩ := ne_none_iff_exists'.mp hsome
    rw [hvalue] at heq
    rw [hnone, htrans, hvalue, ← heq]
    exact if_pos rfl

variable (hb : ContentAddressed keccak codes b) (hkeep : KeepsCode b b')

include hb hkeep

theorem SimilarObject.writeCode_eq : o'.writeCode.run b' = o.writeCode.run b' := by
  unfold StateObject.writeCode
  rw [h.account]
  cases h.code with
  | inl hsame => rw [hsame.1, hsame.2]
  | inr hloaded =>
    rw [hloaded.1, hloaded.2, StateObject.getCode]
    cases hcode : o.code with
    | some c => rw [(ho.code c hcode).1]
    | none =>
      dsimp only
      split
      · rename_i c hc _
        split at hc
        · cases hc
        obtain ⟨-, -, hne⟩ := hb _ c hc
        have hsame : update b'.code o.account.codeHash (some c) = b'.code :=
          update_eq_self_iff.mpr (hkeep _ c hc).symm
        rw [Evm.setCode, run_modify, if_neg hne, hsame]
        rfl
      · rfl

theorem SimilarObject.flush_eq (k : Keeper) (refuses : Refusal) :
    (o'.flush k refuses a).run b' = (o.flush k refuses a).run b' := by
  have hstorage : o'.writeStorage a = o.writeStorage a := by
    unfold StateObject.writeStorage
    simp only [h.committedSlot_eq ho]
  unfold StateObject.flush
  rw [h.suicided, h.account, hstorage]
  split
  · rfl
  · rw [run_bind, run_bind, h.writeCode_eq ho hb hkeep]

end

theorem StateDB.commitAll_similar {db db' : StateDB} {ds : List Address} (hnodup : ds.Nodup)
    (hinj : Set.InjOn keccak codes) (hb : ContentAddressed keccak codes b)
    (hkeep : KeepsCode b b') (k : Keeper) (refuses : Refusal)
    (hobjs : ∀ a ∈ ds, ∃ o o', db.stateObjects a = some o ∧ db'.stateObjects a = some o' ∧
      SimilarObject b a o o' ∧ o.Ok keccak codes) :
    ((commitAll k refuses ds).run (db', b')).1.2 = ((commitAll k refuses ds).run (db, b')).1.2 ∧
      ((commitAll k refuses ds).run (db', b')).2 = ((commitAll k refuses ds).run (db, b')).2 := by
  induction ds generalizing db db' b' with
  | nil => exact ⟨rfl, rfl⟩
  | cons a _ ih =>
    obtain ⟨hnotin, hrest⟩ := nodup_cons.mp hnodup
    obtain ⟨o, _, ho, ho', hsim, hok⟩ := hobjs a mem_cons_self
    have hflush := hsim.flush_eq hok hb hkeep k refuses
    have hkept := hok.keepsCode_flush hinj hb hkeep k refuses a
    rw [run_commitAll_of_some k refuses ho, run_commitAll_of_some k refuses ho', hflush]
    rcases hrun : (o.flush k refuses a).run b' with ⟨_, _ | ⟨⟩⟩
    · exact ⟨rfl, rfl⟩
    rw [hrun] at hkept
    refine ih hrest hkept ?_
    intro x hx
    have hne : x ≠ a := fun h => hnotin (h ▸ hx)
    obtain ⟨ox, ox', hox, hox', hrel⟩ := hobjs x (mem_cons_of_mem a hx)
    refine ⟨ox, ox', ?_, ?_, hrel⟩
    · rw [stateObjects_set, if_neg hne, hox]
    · rw [stateObjects_set, if_neg hne, hox']

end

/-! ## Sessions -/

/-- A StateDB over a keeper. -/
structure Session where
  db : StateDB
  backend : Backend
  /-- how many of the oldest journal entries the last commit has seen; nothing reads it -/
  flushed : Nat

namespace Session

/-- A fresh StateDB. -/
def new (b : Backend) (txConfig : TxConfig) : Session := ⟨.new txConfig, b, 0⟩

/-- What happens in a session. -/
inductive Label where
  | call (c : StateDB.Call)
  /-- `Commit`, whatever its outcome -/
  | commit (k : Keeper) (refuses : Refusal)
  /-- other modules change what the keeper holds -/
  | keeper (b : Backend)

/-- One step; a call that panics is none. -/
def step (keccak : List UInt8 → Hash) (s : Session) : Label → Option Session
  | .call c =>
    (s.db.exec keccak s.backend c).map fun db => ⟨db, s.backend, min s.flushed db.journal.length⟩
  | .commit k refuses =>
    let r := ((commit k refuses).run (s.db, s.backend)).1
    some ⟨r.1, r.2, r.1.journal.length⟩
  | .keeper b => some { s with backend := b }

end Session

section

variable (keccak : List UInt8 → Hash) (codes : Set (List UInt8))

/-- A code that the call sets is among `codes`. -/
def StateDB.Call.SetsCodeIn : StateDB.Call → Prop
  | .setCode _ code => code ∈ codes
  | _ => True

instance [DecidablePred (· ∈ codes)] (c : StateDB.Call) : Decidable (c.SetsCodeIn codes) := by
  unfold StateDB.Call.SetsCodeIn
  split <;> infer_instance

/-- A revert is to a snapshot taken after the one with the id. -/
def StateDB.Call.RevertsAbove (revid : Nat) : StateDB.Call → Prop
  | .revertToSnapshot id => revid < id
  | _ => True

instance (revid : Nat) (c : StateDB.Call) : Decidable (c.RevertsAbove revid) := by
  unfold StateDB.Call.RevertsAbove
  split <;> infer_instance

/-- The codes that occur are among `codes`, and the keeper holds codes under their hashes and
does not lose them. -/
def Admitted : Session → Session.Label → Prop
  | _, .call c => c.SetsCodeIn codes
  | _, .commit _ _ => True
  | s, .keeper b => ContentAddressed keccak codes b ∧ KeepsCode s.backend b

/-- A call between a snapshot and the revert to it. -/
def Nested (revid : Nat) (_ : StateDB) (c : StateDB.Call) : Prop :=
  c.SetsCodeIn codes ∧ c.RevertsAbove revid

instance [DecidablePred (· ∈ codes)] (revid : Nat) (db : StateDB) (c : StateDB.Call) :
    Decidable (Nested codes revid db c) :=
  inferInstanceAs (Decidable (c.SetsCodeIn codes ∧ c.RevertsAbove revid))

/-- What holds of every session. -/
structure Session.Sound (s : Session) : Prop where
  layered : Layered (.undo s.backend) (Evm.Sound keccak codes) s.db s.db.journal
  stored : ContentAddressed keccak codes s.backend
  revisions : ∀ r ∈ s.db.validRevisions, r.1 < s.db.nextRevisionID

variable {keccak codes} {b : Backend} {db db' : StateDB}

theorem StateDB.revert_eq {es rest : List JournalEntry} (h : db.journal = es ++ rest) :
    db.revert b rest.length = { unwind (undo b) db es with journal := rest } := by
  have hlen : db.journal.length - rest.length = es.length := by
    rw [h, length_append, Nat.add_sub_cancel]
  unfold revert
  dsimp only
  rw [hlen, h, take_left, drop_left]
  rfl

theorem StateDB.Similar.bookkeeping (h : db.Similar b db') (journal : List JournalEntry)
    (validRevisions : List (Nat × Nat)) (nextRevisionID : Nat) : db.Similar b { db' with
      journal := journal, validRevisions := validRevisions, nextRevisionID := nextRevisionID } :=
  ⟨h.objects, h.cached, h.refund, h.logs, h.accessList⟩

variable (keccak codes) in
/-- The code that may be set. -/
def CodeIn (_ : Address) (h : Hash) (c : List UInt8) : Prop := keccak c = h ∧ c ∈ codes

variable {c : StateDB.Call}

theorem exec_cases_of_codeIn (h : db.exec keccak b c = some db') (hcode : c.SetsCodeIn codes) :
    ByChanges b (CodeIn keccak codes) (fun _ _ _ => True) db db' ∨
      (c = .snapshot ∧ db' = db.snapshot.1) ∨
      ∃ revid, c = .revertToSnapshot revid ∧ db.revertToSnapshot b revid = some db' := by
  refine exec_cases h ?_
  cases c with
  | setCode => exact ⟨rfl, hcode⟩
  | createAccount => exact fun _ _ => trivial
  | _ => trivial

section

variable {es : List JournalEntry}

theorem layered_similar (hs : Layered (.undo b) (Sound keccak codes) db es)
    (hb : ContentAddressed keccak codes b) (h : db.Similar b db') :
    Layered (.undo b) (Sound keccak codes) db' es :=
  hs.map (fun _ _ _ hsim hsound => hsound.similar hb hsim) (fun _ _ e _ hsim _ => hsim.undo e) h

variable (hs : Layered (StateDB.undo b) (Sound keccak codes) db db.journal)
  (hb : ContentAddressed keccak codes b)

include hs hb

theorem layered_revert (index : Nat) (validRevisions : List (Nat × Nat)) :
    Layered (.undo b) (Sound keccak codes)
      { db.revert b index with validRevisions := validRevisions } (db.revert b index).journal := by
  have hsplit : Layered (.undo b) (Sound keccak codes) db
      (db.journal.take (db.journal.length - index) ++
        db.journal.drop (db.journal.length - index)) := by
    rw [take_append_drop]
    exact hs
  exact layered_similar hsplit.unwind hb (StateDB.Similar.refl.bookkeeping _ _ _)

theorem layered_exec (hcode : c.SetsCodeIn codes) (h : db.exec keccak b c = some db') :
    Layered (.undo b) (Sound keccak codes) db' db'.journal := by
  rcases exec_cases_of_codeIn h hcode with ⟨_, hchanges⟩ | ⟨-, rfl⟩ | ⟨_, -, hrevert⟩
  · rw [hchanges.journal.1]
    exact (hchanges.restores hs hb fun _ _ _ h => h).1
  · exact layered_similar hs hb (StateDB.Similar.refl.bookkeeping _ _ _)
  · obtain ⟨before, _, index, -, -, rfl⟩ := revertToSnapshot_eq_some.mp hrevert
    exact layered_revert hs hb index before

end

theorem revisions_exec (hs : ∀ r ∈ db.validRevisions, r.1 < db.nextRevisionID)
    (hcode : c.SetsCodeIn codes) (h : db.exec keccak b c = some db') :
    (∀ r ∈ db'.validRevisions, r.1 < db'.nextRevisionID) ∧
      db.nextRevisionID ≤ db'.nextRevisionID := by
  rcases exec_cases_of_codeIn h hcode with ⟨_, hchanges⟩ | ⟨-, rfl⟩ | ⟨_, -, hrevert⟩
  · obtain ⟨-, hvalid, hnext⟩ := hchanges.journal
    rw [hvalid, hnext]
    exact ⟨hs, Nat.le_refl _⟩
  · refine ⟨?_, Nat.le_succ _⟩
    intro r hr
    cases mem_append.mp hr with
    | inl hold => exact Nat.lt_succ_of_lt (hs r hold)
    | inr hnew =>
      rw [mem_singleton.mp hnew]
      exact Nat.lt_succ_self _
  obtain ⟨_, _, index, hvalid, -, rfl⟩ :=
    revertToSnapshot_eq_some.mp hrevert
  have hnext : (db.revert b index).nextRevisionID = db.nextRevisionID :=
    db.revert_nextRevisionID b index
  refine ⟨?_, hnext.ge⟩
  intro r hr
  refine Nat.lt_of_lt_of_eq (hs r ?_) hnext.symm
  rw [hvalid]
  exact mem_append_left _ hr

namespace Session

theorem Sound.new (hb : ContentAddressed keccak codes b) (txConfig : TxConfig) :
    (Session.new b txConfig).Sound keccak codes where
  layered := by
    refine ⟨?_, ?_, ?_, ?_⟩
    · intro a _ ho
      cases ho
    · intro e he
      cases he
    · intro _ _ h
      cases h
    · intro _ _ hes
      cases hes
  stored := hb
  revisions r hr := by cases hr

theorem Sound.step {s s' : Session} {l : Label} (hs : s.Sound keccak codes)
    (hok : Admitted keccak codes s l) (h : s.step keccak l = some s') : s'.Sound keccak codes := by
  cases l with
  | call =>
    obtain ⟨_, hexec, rfl⟩ := map_eq_some_iff.mp h
    exact ⟨layered_exec hs.layered hs.stored hok hexec, hs.stored,
      (revisions_exec hs.revisions hok hexec).1⟩
  | commit k refuses =>
    cases h
    obtain ⟨hflushed, hjournal, hvalid, hnext, hstored⟩ :=
      commitAll_keeps k refuses s.db.sortedDirties hs.layered.head.objects hs.stored
    rw [commit, run_gets_bind]
    refine ⟨?_, hstored, ?_⟩
    · rw [hjournal]
      exact layered_onlyFlushed hs.layered hflushed _
    · rw [hvalid, hnext]
      exact hs.revisions
  | keeper b' =>
    cases h
    exact ⟨layered_onlyFlushed hs.layered (.refl s.db) b', hok.1, hs.revisions⟩

end Session

/-! ## Between a snapshot and the revert to it -/

/-- Where a run of calls stands that began with the snapshot `revid` of `db₀`: undoing what
it has journaled leads back, and the snapshot is still valid. -/
structure Since (keccak : List UInt8 → Hash) (codes : Set (List UInt8)) (b : Backend)
    (db₀ : StateDB) (revid : Nat) (db : StateDB) : Prop where
  layered : Layered (.undo b) (Sound keccak codes) db db.journal
  revisions : ∀ r ∈ db.validRevisions, r.1 < db.nextRevisionID
  later : revid < db.nextRevisionID
  valid : ∃ after, db.validRevisions = db₀.validRevisions ++ (revid, db₀.journal.length) :: after ∧
    ∀ r ∈ after, db₀.journal.length ≤ r.2
  restores : ∃ es, db.journal = es ++ db₀.journal ∧
    db₀.Similar b (unwind (.undo b) db es)

namespace Since

variable {db₀ : StateDB} {revid : Nat}

theorem start (hlayered : Layered (.undo b) (Sound keccak codes) db₀ db₀.journal)
    (hrevs : ∀ r ∈ db₀.validRevisions, r.1 < db₀.nextRevisionID)
    (hb : ContentAddressed keccak codes b) :
    Since keccak codes b db₀ db₀.snapshot.2 db₀.snapshot.1 where
  layered := layered_similar hlayered hb (StateDB.Similar.refl.bookkeeping _ _ _)
  revisions := by
    intro r hr
    cases mem_append.mp hr with
    | inl hold => exact Nat.lt_succ_of_lt (hrevs r hold)
    | inr hnew =>
      rw [mem_singleton.mp hnew]
      exact Nat.lt_succ_self _
  later := Nat.lt_succ_self _
  valid := ⟨[], rfl, fun r hr => by cases hr⟩
  restores := ⟨[], rfl, StateDB.Similar.refl.bookkeeping _ _ _⟩

theorem split_after {before after after' : List (Nat × Nat)} {valid₀ : List (Nat × Nat)}
    {index id index' : Nat} (hids : ∀ r ∈ valid₀, r.1 < revid) (hid : revid < id)
    (h : before ++ (id, index') :: after' = valid₀ ++ (revid, index) :: after) :
    ∃ after₁, before = valid₀ ++ (revid, index) :: after₁ ∧
      after = after₁ ++ (id, index') :: after' := by
  have hcons : valid₀ ++ (revid, index) :: after = (valid₀ ++ [(revid, index)]) ++ after := by
    rw [append_assoc, singleton_append]
  rw [hcons] at h
  rcases append_eq_append_iff.mp h with ⟨rest, hfront, hback⟩ | ⟨after₁, rfl, hafter⟩
  · cases rest with
    | nil =>
      rw [append_nil] at hfront
      exact ⟨[], hfront.symm, hback.symm⟩
    | cons =>
      obtain ⟨rfl, -⟩ := List.cons.inj hback
      have hmem : (id, index') ∈ valid₀ ++ [(revid, index)] := by
        rw [hfront]
        exact mem_append_right _ mem_cons_self
      cases mem_append.mp hmem with
      | inl hold => exact absurd (hids _ hold) (Nat.lt_asymm hid)
      | inr hself =>
        cases mem_singleton.mp hself
        exact absurd hid (Nat.lt_irrefl _)
  · refine ⟨after₁, ?_, hafter⟩
    rw [append_assoc, singleton_append]

theorem exec (h : Since keccak codes b db₀ revid db) (hb : ContentAddressed keccak codes b)
    (hids : ∀ r ∈ db₀.validRevisions, r.1 < revid) (hnested : Nested codes revid db c)
    (hexec : db.exec keccak b c = some db') : Since keccak codes b db₀ revid db' := by
  obtain ⟨hcode, habove⟩ := hnested
  obtain ⟨after, hvalid, hafter⟩ := h.valid
  obtain ⟨es, hjournal, hsim⟩ := h.restores
  have hlayered := layered_exec h.layered hb hcode hexec
  obtain ⟨hrevs, hmono⟩ := revisions_exec h.revisions hcode hexec
  have hlater := Nat.lt_of_lt_of_le h.later hmono
  rcases exec_cases_of_codeIn hexec hcode with ⟨es', hchanges⟩ | ⟨-, rfl⟩ | ⟨id, rfl, hrevert⟩
  · obtain ⟨hjournal', hvalid', -⟩ := hchanges.journal
    refine ⟨hlayered, hrevs, hlater, ⟨after, hvalid'.trans hvalid, hafter⟩, es' ++ es, ?_, ?_⟩
    · rw [hjournal', hjournal, append_assoc]
    · exact (StateDB.Similar.respects b).restores_trans (fun _ _ _ h h' => h.trans h') hsim
        (hchanges.restores h.layered hb fun _ _ _ h => h).2
  · refine ⟨hlayered, hrevs, hlater,
      ⟨after ++ [(db.nextRevisionID, db.journal.length)], ?_, ?_⟩, es, hjournal, ?_⟩
    · show db.validRevisions ++ _ = _
      rw [hvalid, append_assoc, cons_append]
    · intro r hr
      cases mem_append.mp hr with
      | inl hold => exact hafter r hold
      | inr hnew =>
        rw [mem_singleton.mp hnew, hjournal, length_append]
        exact Nat.le_add_left _ _
    · exact hsim.trans ((StateDB.Similar.respects b).unwind
        (StateDB.Similar.refl.bookkeeping _ _ _) es)
  · obtain ⟨_, _, index, hvalid', -, rfl⟩ :=
      revertToSnapshot_eq_some.mp hrevert
    obtain ⟨after₁, rfl, rfl⟩ := split_after hids habove (hvalid'.symm.trans hvalid)
    have hindex := hafter (id, index) (mem_append_right _ mem_cons_self)
    -- what is undone was journaled since
    have hle : db.journal.length - index ≤ es.length := by
      rw [hjournal, length_append]
      omega
    have hcut : ∀ n ≤ es.length, db.journal.take n = es.take n ∧
        db.journal.drop n = es.drop n ++ db₀.journal := by
      intro _ hn
      rw [hjournal, take_append_of_le_length hn, drop_append_of_le_length hn]
      exact ⟨rfl, rfl⟩
    obtain ⟨htake, hdrop⟩ := hcut _ hle
    refine ⟨hlayered, hrevs, hlater, ⟨after₁, rfl, fun r hr => hafter r (mem_append_left _ hr)⟩,
      es.drop (db.journal.length - index), hdrop, ?_⟩
    · have hundone : unwind (.undo b) db es =
          unwind (.undo b) (unwind (.undo b) db (db.journal.take (db.journal.length - index)))
            (es.drop (db.journal.length - index)) := by
        rw [← unwind_append, htake, take_append_drop]
      rw [hundone] at hsim
      exact hsim.trans ((StateDB.Similar.respects b).unwind
        (StateDB.Similar.refl.bookkeeping _ _ _) _)

theorem revertToSnapshot (h : Since keccak codes b db₀ revid db)
    (hids : ∀ r ∈ db₀.validRevisions, r.1 < revid) :
    ∃ db', db.revertToSnapshot b revid = some db' ∧ db₀.Similar b db' ∧
      db'.journal = db₀.journal := by
  obtain ⟨after, hvalid, -⟩ := h.valid
  obtain ⟨_, hjournal, hsim⟩ := h.restores
  refine ⟨_, revertToSnapshot_eq_some.mpr ⟨_, after, _, hvalid, hids, rfl⟩, ?_, ?_⟩
  · rw [revert_eq hjournal]
    exact hsim.bookkeeping _ _ _
  · rw [revert_eq hjournal]

end Since

theorem StateDB.Similar.commit_eq (h : db.Similar b db') (hjournal : db'.journal = db.journal)
    (hs : Sound keccak codes db db.journal) (hb : ContentAddressed keccak codes b)
    (hinj : Set.InjOn keccak codes) (k : Keeper) (refuses : Refusal) :
    ((commit k refuses).run (db', b)).1.2 = ((commit k refuses).run (db, b)).1.2 ∧
      ((commit k refuses).run (db', b)).2 = ((commit k refuses).run (db, b)).2 := by
  have hdirties : db'.sortedDirties = db.sortedDirties := by
    unfold sortedDirties
    rw [hjournal]
  rw [commit, run_gets_bind, run_gets_bind, hdirties]
  refine commitAll_similar db.nodup_sortedDirties hinj hb (fun _ _ hc => hc) k refuses ?_
  intro a ha
  obtain ⟨e, he, hdirt⟩ := mem_filterMap.mp (mem_sortedDirties.mp ha)
  have hacc : e.account = some a := by cases e <;> first | exact hdirt | cases hdirt
  have hcached := hs.present e he a hacc
  obtain ⟨o, ho⟩ := isSome_iff_exists.mp hcached
  obtain ⟨o', ho'⟩ := isSome_iff_exists.mp (h.cached a hcached)
  have hrel := h.objects a
  rw [find?_of_stateObjects b db a ho, find?_of_stateObjects b db' a ho'] at hrel
  cases hrel with
  | some hso => exact ⟨o, o', ho, ho', hso, hs.objects a o ho⟩

/-- From every state of a session, a snapshot, a run of calls with nested snapshots and
reverts, and the revert to the snapshot: the revert succeeds, every entry on the journal can
be undone, every getter returns what it returned, and a commit writes to the keeper what it
would have written, with the same outcome. -/
theorem revertToSnapshot_exact (hinj : Set.InjOn keccak codes) (b₀ : Backend)
    (hb₀ : ContentAddressed keccak codes b₀) (txConfig : TxConfig) (s : Session)
    (hreach : Path (Session.step keccak) (Admitted keccak codes) (.new b₀ txConfig) s)
    (db₁ : StateDB)
    (hrun : Path (exec keccak s.backend) (Nested codes s.db.snapshot.2) s.db.snapshot.1
      db₁) : ∃ db₂, db₁.revertToSnapshot s.backend s.db.snapshot.2 = some db₂ ∧
      (∀ es e rest, db₁.journal = es ++ e :: rest → e.Applies (unwind (undo s.backend) db₁ es)) ∧
      db₂.view s.backend = s.db.view s.backend ∧
      ∀ k refuses, ((commit k refuses).run (db₂, s.backend)).1.2 =
            ((commit k refuses).run (s.db, s.backend)).1.2 ∧
          ((commit k refuses).run (db₂, s.backend)).2 =
            ((commit k refuses).run (s.db, s.backend)).2 := by
  have hsound : s.Sound keccak codes :=
    Path.invariant (fun _ _ _ ht hok hl => ht.step hok hl) (.new hb₀ txConfig) hreach
  have hsince : Since keccak codes s.backend s.db s.db.snapshot.2 db₁ :=
    Path.invariant (fun _ _ _ ht hok hl => ht.exec hsound.stored hsound.revisions hok hl)
      (.start hsound.layered hsound.revisions hsound.stored) hrun
  obtain ⟨db₂, hrevert, hsim, hjournal⟩ := hsince.revertToSnapshot hsound.revisions
  refine ⟨db₂, hrevert, ?_, hsim.view_eq, ?_⟩
  · intro _ e rest hes
    have hlayered := hsince.layered
    rw [hes] at hlayered
    exact hlayered.unwind.head.applies e rest rfl
  · intro k refuses
    exact hsim.commit_eq hjournal hsound.layered.head hsound.stored hinj k refuses

end

namespace NestedFrames

def contract : Address := .ofNat 1
def created : Address := .ofNat 2

/-- The keeper holds one contract account. -/
def backend : Backend where
  accounts := fun a => if a = contract then some ⟨1, some 5⟩ else none
  bank := fun a => if a = contract then 10 else 0
  supply := 10
  storage := fun a key => if a = contract ∧ key = 1 then 3 else 0
  code := fun h => if h = 5 then some [0x5b] else none

def keccak (code : List UInt8) : Hash := if code = [0x5b] then 5 else 6

def codes : Set (List UInt8) := {c | c = [0x5b] ∨ c = [0x00]}

instance : DecidablePred (· ∈ codes) := fun c =>
  inferInstanceAs (Decidable (c = [0x5b] ∨ c = [0x00]))

theorem contentAddressed : ContentAddressed keccak codes backend := by
  intro _ _ hc
  simp only [backend] at hc
  split at hc
  · rename_i hh
    cases hc
    exact ⟨hh.symm, .inl rfl, by decide⟩
  · cases hc

theorem injOn_keccak : Set.InjOn keccak codes :=
  Set.injOn_pair.mpr fun h => absurd h (by decide)

/-- Storage, code and balance of the contract change; an inner frame creates an account and is
reverted; the contract destroys itself. -/
def calls : List StateDB.Call :=
  [.setState contract 1 7, .setCode contract [0x00], .snapshot, .createAccount created,
    .addBalance created 4, .addSlotToAccessList created 1, .revertToSnapshot 1, .addRefund 9,
    .setState contract 1 8, .suicide contract]

end NestedFrames

open NestedFrames in
/-- The revert brings back the slot, the code and the account. -/
theorem revertToSnapshot_exact_nested : ∃ db₁ db₂, Path (exec keccak backend) (Nested codes 0)
        (new ⟨0, 0, 0, 0⟩).snapshot.1 db₁ ∧
      db₁.hasSuicided backend contract ∧ db₁.getState backend contract 1 = 8 ∧
      db₁.revertToSnapshot backend 0 = some db₂ ∧
      db₂.view backend = (new ⟨0, 0, 0, 0⟩).view backend := by
  obtain ⟨db₁, hrun, hsuicided, hstate⟩ :
      ∃ db₁, Path (exec keccak backend) (Nested codes 0)
          (new ⟨0, 0, 0, 0⟩).snapshot.1 db₁ ∧
        db₁.hasSuicided backend contract ∧ db₁.getState backend contract 1 = 8 :=
    exists_path (new ⟨0, 0, 0, 0⟩).snapshot.1 calls (by decide +kernel)
  obtain ⟨db₂, hrevert, -, hview, -⟩ := revertToSnapshot_exact injOn_keccak backend
    contentAddressed ⟨0, 0, 0, 0⟩ (.new backend ⟨0, 0, 0, 0⟩) .refl db₁ hrun
  exact ⟨db₁, db₂, hrun, hsuicided, hstate, hrevert, hview⟩

end HyperPax.Evm
