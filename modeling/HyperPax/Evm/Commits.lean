/-
  Evm/Commits.lean --- commits in the middle of a session.

  A successful commit makes every object show what the keeper holds, if keeper and
  StateDB were coherent before.  So they agree after the last commit of a session, if no
  step has broken coherence.  A revert to before an earlier commit may break it: an
  account all of whose entries are undone is not dirty, and keeps in the keeper what the
  reverted frame had committed.
-/
import HyperPax.Evm.Coherence

set_option autoImplicit false

namespace HyperPax.Evm

open Lib StateDB Function Option List Session

/-! ## One object -/

section

variable {keccak : List UInt8 → Hash} {codes : Set (List UInt8)} {k : Keeper} {refuses : Refusal}
  {a x : Address} {o : StateObject} {b b' : Backend}

section

variable (h : (o.flush k refuses a).run b = (b', .ok ()))

include h

/-- What a successful flush leaves of the account, and of the others. -/
theorem StateObject.flush_ok :
    (∀ x, x ≠ a → b'.bank x = b.bank x ∧ b'.storage x = b.storage x ∧ OpensModule k b b' x) ∧
      if o.suicided then b'.accounts a = none
      else b'.accounts a = some (((b.accounts a).getD .fresh).write o.account) ∧
        (b'.bank a : Int) = o.account.balance ∧
        ∀ key, b'.storage a key = (o.committedSlot key).getD (b.storage a key) := by
  unfold flush at h
  split
  · rename_i hsuicided
    rw [if_pos hsuicided] at h
    obtain ⟨hothers, hnone, -⟩ := deleteAccount_ok h
    exact ⟨hothers, hnone⟩
  rename_i halive
  rw [if_neg halive] at h
  obtain ⟨b₁, ⟨⟩, hcode, h⟩ := Action.run_bind_ok.mp h
  obtain ⟨_, ⟨⟩, hset, hstorage⟩ := Action.run_bind_ok.mp h
  obtain ⟨haccounts, hbank, hslots⟩ : b₁.accounts = b.accounts ∧ b₁.bank = b.bank ∧
      b₁.storage = b.storage := by
    rcases o.writeCode_cases b with ⟨hrun, -⟩ | ⟨c, -, hrun⟩
    · rw [hrun] at hcode
      cases hcode
      exact ⟨rfl, rfl, rfl⟩
    · rw [hrun] at hcode
      cases hcode
      exact ⟨rfl, rfl, rfl⟩
  obtain ⟨hbank₂, -, hslots₂, -⟩ := setAccount_ok hset
  obtain ⟨hself, hothers⟩ := setAccount_accounts hset
  cases hstorage
  refine ⟨?_, ?_, ?_, ?_⟩
  · intro x hx
    have hx' := hbank₂ x
    rw [if_neg hx, hbank] at hx'
    refine ⟨Int.ofNat_inj.mp hx', ?_, ?_⟩
    · dsimp only
      rw [update_of_ne hx, hslots₂, hslots]
    have hopens := hothers x hx
    unfold OpensModule at hopens ⊢
    rw [haccounts] at hopens
    exact hopens
  · rw [haccounts] at hself
    exact hself
  · have ha := hbank₂ a
    rw [if_pos rfl] at ha
    exact ha
  · intro _
    dsimp only
    rw [update_self, hslots₂, hslots]

theorem NonEth.of_flush (hnon : NonEth b' x) : NonEth b x := by
  obtain ⟨hothers, hself⟩ := o.flush_ok h
  unfold NonEth at hnon ⊢
  by_cases hx : x = a
  · subst hx
    split at hself
    · rw [hself] at hnon
      cases hnon
    rw [hself.1] at hnon
    cases hacc : b.accounts x with
    | none =>
      rw [hacc] at hnon
      cases hnon
    | some =>
      rw [hacc] at hnon
      simpa [AuthAccount.write] using hnon
  · rcases (hothers x hx).2.2 with hsame | ⟨-, hfresh, -⟩
    · rw [hsame] at hnon
      exact hnon
    · rw [hfresh] at hnon
      cases hnon

end

theorem StateObject.Ok.code_flush (ho : o.Ok keccak codes) (hinj : Set.InjOn keccak codes)
    (h : (o.flush k refuses a).run b = (b', .ok ())) {c : List UInt8} (hc : c ∈ codes)
    (hstored : (b.code (keccak c)).getD [] = c ∨ (o.suicided = false ∧ o.code = some c)) :
    (b'.code (keccak c)).getD [] = c := by
  have hcode := o.flush_code k refuses a b
  rw [h] at hcode
  rw [hcode]
  split
  · rename_i hsuicided
    refine hstored.resolve_right fun hself => ?_
    rw [hself.1] at hsuicided
    cases hsuicided
  rcases o.writeCode_cases b with ⟨hrun, hclean⟩ | ⟨c', hcode', hrun⟩
  · rw [hrun]
    refine hstored.resolve_right fun hself => ?_
    have hdirty := (ho.code c hself.2).1
    rw [hclean c hself.2] at hdirty
    cases hdirty
  obtain ⟨-, hhash, hmem⟩ := ho.code c' hcode'
  rw [hrun]
  dsimp only
  by_cases hh : keccak c = o.account.codeHash
  · obtain rfl : c = c' := hinj hc hmem (hh.trans hhash.symm)
    rw [hh, update_self]
    split
    · rename_i hnil
      exact hnil.symm
    · rfl
  · rw [update_of_ne hh]
    refine hstored.resolve_right fun hself => hh ?_
    rw [hcode'] at hself
    cases hself.2
    exact hhash

theorem Slots.flush (hs : Slots b a o) (h : (o.flush k refuses a).run b = (b', .ok ()))
    (halive : o.suicided = false) : Slots b' a o.flushed := by
  have hself := (o.flush_ok h).2
  rw [if_neg (by rw [halive]; exact Bool.false_ne_true)] at hself
  obtain ⟨-, -, hstorage⟩ := hself
  have hflushed : o.flushed = { o with
      transientStorage := fun key => (o.committedSlot key).or (o.transientStorage key) } :=
    if_neg (by rw [halive]; exact Bool.false_ne_true)
  rw [hflushed]
  refine ⟨?_, ?_⟩
  · intro key value htrans
    rw [hstorage key]
    cases hslot : o.committedSlot key with
    | some =>
      simp only [hslot, some_or] at htrans
      exact Option.some.inj htrans
    | none =>
      simp only [hslot, none_or] at htrans
      exact hs.transient key value htrans
  · intro key value htrans horigin
    obtain ⟨hslot, hnone⟩ := or_eq_none_iff.mp htrans
    rw [hstorage key, hslot]
    exact hs.origin key value hnone horigin

theorem Slots.committedSlot_getD (hs : Slots b a o) (ho : o.Ok keccak codes) {key value : Hash}
    (hdirty : o.dirtyStorage key = some value) :
    (o.committedSlot key).getD (b.storage a key) = value := by
  unfold StateObject.committedSlot
  rw [hdirty]
  cases htrans : o.transientStorage key with
  | some committed =>
    dsimp only
    split
    · rename_i hsame
      exact (hs.transient key committed htrans).trans hsame
    · rfl
  | none =>
    have hcached := ho.origin key (by rw [hdirty]; exact some_ne_none value)
    obtain ⟨original, horigin⟩ := ne_none_iff_exists'.mp hcached
    rw [horigin]
    dsimp only
    split
    · rename_i hsame
      exact (hs.origin key original htrans horigin).trans hsame.symm
    · rfl

theorem Matches.of_flush (hs : Slots b a o) (ho : o.Ok keccak codes)
    (hinj : Set.InjOn keccak codes) (hplain : NonEth b a → o.account.codeHash = emptyCodeHash)
    (h : (o.flush k refuses a).run b = (b', .ok ())) (halive : o.suicided = false) :
    Matches b' a o.flushed := by
  have hself := (o.flush_ok h).2
  rw [if_neg (by rw [halive]; exact Bool.false_ne_true)] at hself
  obtain ⟨hacc, hbank, hstorage⟩ := hself
  obtain ⟨_, hflushed, -⟩ := o.flushedObject
  rw [hflushed]
  refine ⟨?_, ?_, ?_⟩
  · have hhash : ((((b.accounts a).getD .fresh).write o.account).codeHash).getD emptyCodeHash =
        o.account.codeHash := by
      cases hplace : ((b.accounts a).getD .fresh).codeHash with
      | some => simp [AuthAccount.write, hplace]
      | none =>
        have hnon : NonEth b a := by
          unfold NonEth
          cases hacct : b.accounts a with
          | none =>
            rw [hacct] at hplace
            cases hplace
          | some =>
            rw [hacct] at hplace
            simpa using hplace
        simp [AuthAccount.write, hplace, hplain hnon]
    unfold Backend.getAccount
    rw [hacc, map_some, hhash, hbank]
    rfl
  · intro key _ hdirty
    rw [hstorage key]
    exact hs.committedSlot_getD ho hdirty
  · intro c hc
    obtain ⟨-, hhash, hmem⟩ := ho.code c hc
    rw [← hhash]
    exact ho.code_flush hinj h hmem (.inr ⟨halive, hc⟩)

variable {ox : StateObject}

theorem Slots.flush_other (hs : Slots b x ox) (hx : x ≠ a)
    (h : (o.flush k refuses a).run b = (b', .ok ())) : Slots b' x ox := by
  have hstorage := ((o.flush_ok h).1 x hx).2.1
  refine ⟨?_, ?_⟩
  · rw [hstorage]
    exact hs.transient
  · rw [hstorage]
    exact hs.origin

theorem Matches.flush_other (hm : Matches b x ox) (hx : x ≠ a) (ho : o.Ok keccak codes)
    (hox : ox.Ok keccak codes) (hinj : Set.InjOn keccak codes)
    (h : (o.flush k refuses a).run b = (b', .ok ())) : Matches b' x ox := by
  obtain ⟨hbank, hstorage, hopens⟩ := (o.flush_ok h).1 x hx
  refine ⟨?_, ?_, ?_⟩
  · have hacc := hm.account
    unfold Backend.getAccount at hacc ⊢
    rcases hopens with hsame | ⟨hnone, -, -⟩
    · rw [hsame, hbank]
      exact hacc
    · rw [hnone] at hacc
      cases hacc
  · rw [hstorage]
    exact hm.dirty
  · intro c hc
    obtain ⟨-, hhash, hmem⟩ := hox.code c hc
    have hstored := hm.code c hc
    rw [← hhash] at hstored ⊢
    exact ho.code_flush hinj h hmem (.inl hstored)

end

/-! ## All objects -/

/-- In the middle of a commit: the objects of `ds` have still to be written. -/
structure Committing (keccak : List UInt8 → Hash) (codes : Set (List UInt8)) (b₀ : Backend)
    (k : Keeper) (es : List JournalEntry) (ds : List Address) (db : StateDB) (b : Backend) :
    Prop where
  slots : ∀ a o, db.stateObjects a = some o → o.suicided = false → Slots b a o
  written : ∀ a o, db.stateObjects a = some o → o.suicided = false → a ∉ ds → Matches b a o
  untouched : ∀ a, db.stateObjects a = none →
    b.accounts a = b₀.accounts a ∧ b.bank a = b₀.bank a ∧ b.storage a = b₀.storage a
  plain : ∀ a o, db.stateObjects a = some o → NonEth b a → o.account.codeHash = emptyCodeHash
  coded : ∀ a code codeHash, .code a code codeHash ∈ es → ¬ NonEth b a
  objects : ∀ a o, db.stateObjects a = some o → o.Ok keccak codes
  stored : ContentAddressed keccak codes b
  opened : db.stateObjects k.moduleAccount = none → (b.accounts k.moduleAccount).isSome

section

variable {keccak : List UInt8 → Hash} {codes : Set (List UInt8)} {k : Keeper} {refuses : Refusal}
  {b₀ b b' : Backend} {db db' : StateDB} {es : List JournalEntry} {ds : List Address}

/-- One object is written. -/
theorem Committing.flush {a : Address} {o : StateObject}
    (hc : Committing keccak codes b₀ k es (a :: ds) db b) (hinj : Set.InjOn keccak codes)
    (ho : db.stateObjects a = some o) (h : (o.flush k refuses a).run b = (b', .ok ())) :
    Committing keccak codes b₀ k es ds (db.setStateObject a o.flushed) b' := by
  have hok := hc.objects a o ho
  obtain ⟨_, hflushed, -⟩ := o.flushedObject
  have halive : o.flushed.suicided = o.suicided := by rw [hflushed]
  have hacc : o.flushed.account = o.account := by rw [hflushed]
  have hothers := (o.flush_ok h).1
  have hstored := hok.contentAddressed_flush hc.stored k refuses a
  rw [h] at hstored
  -- the object of `a`, and the others
  have hcases : ∀ x ox, (db.setStateObject a o.flushed).stateObjects x = some ox →
      (x = a ∧ ox = o.flushed) ∨ (x ≠ a ∧ db.stateObjects x = some ox) := by
    intro x ox hox
    rw [stateObjects_set] at hox
    split at hox
    · rename_i hx
      exact .inl ⟨hx, (Option.some.inj hox).symm⟩
    · rename_i hx
      exact .inr ⟨hx, hox⟩
  have hnone : ∀ x, (db.setStateObject a o.flushed).stateObjects x = none →
      x ≠ a ∧ db.stateObjects x = none := by
    intro x hx
    rw [stateObjects_set] at hx
    split at hx
    · cases hx
    · rename_i hne
      exact ⟨hne, hx⟩
  refine ⟨?_, ?_, ?_, ?_, ?_, ?_, hstored, ?_⟩
  · intro x ox hox hsuicided
    rcases hcases x ox hox with ⟨rfl, rfl⟩ | ⟨hne, hold⟩
    · rw [halive] at hsuicided
      exact (hc.slots x o ho hsuicided).flush h hsuicided
    · exact (hc.slots x ox hold hsuicided).flush_other hne h
  · intro x ox hox hsuicided hx
    rcases hcases x ox hox with ⟨rfl, rfl⟩ | ⟨hne, hold⟩
    · rw [halive] at hsuicided
      exact .of_flush (hc.slots x o ho hsuicided) hok hinj (hc.plain x o ho) h hsuicided
    · have hmatches := hc.written x ox hold hsuicided (not_mem_cons_of_ne_of_not_mem hne hx)
      exact hmatches.flush_other hne hok (hc.objects x ox hold) hinj h
  · intro x hx
    obtain ⟨hne, hold⟩ := hnone x hx
    obtain ⟨hbank, hstorage, hopens⟩ := hothers x hne
    rw [hbank, hstorage]
    refine ⟨?_, (hc.untouched x hold).2⟩
    rcases hopens with hsame | ⟨hclosed, -, rfl⟩
    · rw [hsame]
      exact (hc.untouched x hold).1
    have hopen := hc.opened hold
    rw [hclosed] at hopen
    cases hopen
  · intro x ox hox hnon
    rcases hcases x ox hox with ⟨rfl, rfl⟩ | ⟨-, hold⟩
    · rw [hacc]
      exact hc.plain x o ho (hnon.of_flush h)
    · exact hc.plain x ox hold (hnon.of_flush h)
  · exact fun x code codeHash hmem hnon => hc.coded x code codeHash hmem (hnon.of_flush h)
  · intro x ox hox
    rcases hcases x ox hox with ⟨rfl, rfl⟩ | ⟨-, hold⟩
    · exact o.flushedObject.ok hok
    · exact hc.objects x ox hold
  · intro hm
    obtain ⟨hne, hold⟩ := hnone _ hm
    have hopen := hc.opened hold
    rcases (hothers _ hne).2.2 with hsame | ⟨hclosed, -⟩
    · rw [hsame]
      exact hopen
    · rw [hclosed] at hopen
      cases hopen

theorem Committing.commitAll (hc : Committing keccak codes b₀ k es ds db b)
    (hinj : Set.InjOn keccak codes)
    (h : (commitAll k refuses ds).run (db, b) = ((db', b'), .ok ())) :
    Committing keccak codes b₀ k es [] db' b' := by
  induction ds generalizing db b with
  | nil =>
    cases h
    exact hc
  | cons a _ ih =>
    cases ho : db.stateObjects a with
    | none =>
      rw [run_commitAll_of_none k refuses ho] at h
      refine ih ⟨hc.slots, ?_, hc.untouched, hc.plain, hc.coded, hc.objects, hc.stored, hc.opened⟩ h
      intro x ox hox hsuicided hx
      refine hc.written x ox hox hsuicided (not_mem_cons_of_ne_of_not_mem ?_ hx)
      rintro rfl
      rw [ho] at hox
      cases hox
    | some o =>
      rw [run_commitAll_of_some k refuses ho] at h
      rcases hrun : (o.flush k refuses a).run b with ⟨_, _ | ⟨⟩⟩
      · rw [hrun] at h
        cases h
      · rw [hrun] at h
        exact ih (hc.flush hinj ho hrun) h

theorem Coherent.commit (hc : Coherent b₀ b db db.journal) (hs : Sound keccak codes db db.journal)
    (hb : ContentAddressed keccak codes b) (hinj : Set.InjOn keccak codes)
    (hmodule : (b.accounts k.moduleAccount).isSome)
    (h : (commit k refuses).run (db, b) = ((db', b'), .ok ())) :
    Coherent b₀ b' db' db'.journal ∧ Committing keccak codes b₀ k db.journal [] db' b' := by
  rw [StateDB.commit, Action.run_gets_bind] at h
  obtain ⟨hflushed, hjournal, -⟩ := commitAll_keeps k refuses db.sortedDirties hs.objects hb
  rw [h] at hflushed hjournal
  have hstart : Committing keccak codes b₀ k db.journal db.sortedDirties db b := by
    refine ⟨hc.slots, ?_, hc.untouched, hc.plain, hc.coded, hs.objects, hb, fun _ => hmodule⟩
    intro a o ho _ hclean
    exact (hc.clean a o ho fun hdirty => hclean (mem_sortedDirties.mpr hdirty)).2
  have hend := hstart.commitAll hinj h
  refine ⟨?_, hend⟩
  rw [hjournal]
  refine ⟨hend.slots, ?_, hend.untouched, hend.plain, hend.coded⟩
  intro a _ ho' hclean
  obtain ⟨o, ho, _, rfl, -⟩ := hflushed.to_some ho'
  have halive := (hc.clean a o ho hclean).1
  exact ⟨halive, hend.written a _ ho' halive not_mem_nil⟩

end

/-! ## Sessions -/

/-- Nothing that a revert to the index undoes behind the last commit needs a commit that no
longer comes. -/
def RevertOk (s : Session) (index : Nat) : Prop :=
  ∀ e ∈ (s.db.journal.drop (s.db.journal.length - s.flushed)).take (s.flushed - index),
    e.StaysDirty (s.db.journal.drop (s.db.journal.length - index))
deriving Decidable

/-- Code is set where there is a place for its hash, objects are replaced whose account the
next commit writes or that are replaced by the same, reverts to before the last commit leave
the accounts they change dirty, and commits succeed, with a module account that exists. -/
def Orderly (codes : Set (List UInt8)) (s : Session) : Session.Label → Prop
  | .call c => c.SetsCodeIn codes ∧
    match c with
    | .setCode a _ => ¬ NonEth s.backend a
    | .createAccount a => ∀ prev ∈ s.db.find? s.backend a, ResetOk s.db a prev
    | .revertToSnapshot revid => ∀ r ∈ s.db.validRevisions, r.1 = revid → RevertOk s r.2
    | _ => True
  | .commit k refuses =>
    (s.backend.accounts k.moduleAccount).isSome ∧
      ((commit k refuses).run (s.db, s.backend)).2.toBool
  | .keeper _ => False

instance (codes : Set (List UInt8)) [DecidablePred (· ∈ codes)] (s : Session) (l : Session.Label) :
    Decidable (Orderly codes s l) :=
  match l with
  | .call (.setCode ..) => inferInstanceAs (Decidable (_ ∈ codes ∧ ¬ NonEth _ _))
  | .call (.createAccount a) =>
    inferInstanceAs (Decidable (True ∧ ∀ prev ∈ s.db.find? s.backend a, ResetOk ..))
  | .call (.revertToSnapshot _) =>
    inferInstanceAs (Decidable (True ∧ ∀ r ∈ s.db.validRevisions, _ → RevertOk ..))
  | .call (.addBalance ..) | .call (.subBalance ..) | .call (.setNonce ..) | .call (.setState ..)
  | .call (.suicide _) | .call (.addLog ..) | .call (.addRefund _) | .call (.subRefund _)
  | .call (.addAddressToAccessList _) | .call (.addSlotToAccessList ..) | .call .snapshot
  | .call (.load _) | .call (.loadState ..) | .call (.loadCommittedState ..) =>
    .isTrue ⟨trivial, trivial⟩
  | .commit .. => inferInstanceAs (Decidable (_ ∧ _))
  | .keeper _ => .isFalse id

section

variable {keccak : List UInt8 → Hash} {codes : Set (List UInt8)} {b₀ : Backend}

/-- What holds of a session all of whose steps are orderly. -/
structure Session.Coherent (keccak : List UInt8 → Hash) (codes : Set (List UInt8)) (b₀ : Backend)
    (s : Session) : Prop where
  sound : s.Sound keccak codes
  bounded : s.flushed ≤ s.db.journal.length
  coherent : CoherentDownTo s.flushed b₀ s.backend s.db s.db.journal

namespace Session.Coherent

variable {s s' : Session} {db' : StateDB}

theorem new (hb : ContentAddressed keccak codes b₀) (txConfig : TxConfig) :
    (new b₀ txConfig).Coherent keccak codes b₀ where
  sound := .new hb txConfig
  bounded := Nat.le_refl 0
  coherent _ := ⟨nofun, nofun, fun _ _ => ⟨rfl, rfl, rfl⟩, nofun, nofun⟩

variable (hs : s.Coherent keccak codes b₀)

include hs

theorem call {c : StateDB.Call} (hok : Orderly codes s (.call c))
    (h : s.db.exec keccak s.backend c = some db') :
    CoherentDownTo (min s.flushed db'.journal.length) b₀ s.backend db' db'.journal := by
  have hmeets : c.Meets (CodeOk keccak codes s.backend) ResetOk keccak s.backend s.db := by
    cases c with
    | setCode => exact ⟨⟨rfl, hok.1⟩, hok.2⟩
    | createAccount => exact hok.2
    | _ => trivial
  rcases exec_cases h hmeets with ⟨_, hchanges⟩ | ⟨-, rfl⟩ | ⟨revid, rfl, hrevert⟩
  · have hle : s.flushed ≤ db'.journal.length := by
      rw [hchanges.journal.1, length_append]
      exact Nat.le_add_left_of_le hs.bounded
    rw [Nat.min_eq_left hle]
    exact hs.coherent.changes hchanges hs.sound.layered hs.sound.stored hs.bounded
  · have hle : s.flushed ≤ s.db.snapshot.1.journal.length := hs.bounded
    rw [Nat.min_eq_left hle]
    exact hs.coherent.similar (StateDB.Similar.refl.bookkeeping _ _ _)
  · obtain ⟨before, _, index, hvalid, -, rfl⟩ := revertToSnapshot_eq_some.mp hrevert
    refine hs.coherent.revert hs.sound.layered hs.bounded index before ?_
    refine hok.2 (revid, index) ?_ rfl
    rw [hvalid]
    exact mem_append_right _ mem_cons_self

theorem commit {k : Keeper} {refuses : Refusal} (hinj : Set.InjOn keccak codes)
    (hmodule : (s.backend.accounts k.moduleAccount).isSome) {b' : Backend}
    (h : (commit k refuses).run (s.db, s.backend) = ((db', b'), .ok ())) :
    Evm.Coherent b₀ b' db' db'.journal ∧ Committing keccak codes b₀ k s.db.journal [] db' b' :=
  (hs.coherent.head hs.bounded).commit hs.sound.layered.head hs.sound.stored hinj hmodule h

theorem step {l : Label} (hinj : Set.InjOn keccak codes) (hok : Orderly codes s l)
    (h : s.step keccak l = some s') : s'.Coherent keccak codes b₀ := by
  have hadmitted : Admitted keccak codes s l := by
    cases l with
    | call => exact hok.1
    | commit => trivial
    | keeper => cases hok
  have hsound := hs.sound.step hadmitted h
  cases l with
  | call =>
    obtain ⟨db', hexec, rfl⟩ := map_eq_some_iff.mp h
    exact ⟨hsound, Nat.min_le_right _ _, hs.call hok hexec⟩
  | commit k refuses =>
    obtain ⟨hmodule, hresult⟩ := hok
    rcases hrun : (StateDB.commit k refuses).run (s.db, s.backend) with ⟨⟨_, _⟩, _ | ⟨⟩⟩
    · rw [hrun] at hresult
      cases hresult
    rw [Session.step, hrun] at h
    cases h
    refine ⟨hsound, Nat.le_refl _, Layered.of_head ?_ fun _ => (hs.commit hinj hmodule hrun).1⟩
    exact fun _ _ hlt hle => absurd hle (Nat.not_le_of_lt hlt)
  | keeper => cases hok

end Session.Coherent

/-- The getters on an object that the keeper matches. -/
theorem Matches.getters {b : Backend} {db : StateDB} {a : Address} {o : StateObject}
    (hm : Matches b a o) (hslots : Slots b a o) (hok : o.Ok keccak codes)
    (hb : ContentAddressed keccak codes b) (hinj : Set.InjOn keccak codes)
    (hempty : keccak [] = emptyCodeHash) (hnil : [] ∈ codes) (ho : db.stateObjects a = some o) :
    b.getAccount a = some ⟨db.getNonce b a, db.getBalance b a, db.getCodeHash b a⟩ ∧
      (∀ key, b.storage a key = db.getState b a key) ∧
      (b.code (db.getCodeHash b a)).getD [] = (db.getCode b a).getD [] := by
  have hfind := find?_of_stateObjects b db a ho
  refine ⟨?_, ?_, ?_⟩
  · simp only [getNonce, getBalance, getCodeHash, hfind]
    exact hm.account
  · intro key
    simp only [getState, hfind, StateObject.getState, StateObject.getCommittedState]
    cases hdirty : o.dirtyStorage key with
    | some value => exact hm.dirty key value hdirty
    | none =>
      have htrans : o.transientStorage key = none := by
        by_contra hne
        exact hok.dirty key hne hdirty
      cases horigin : o.originStorage key with
      | some value => exact hslots.origin key value htrans horigin
      | none => rfl
  · simp only [getCodeHash, getCode, hfind, StateObject.getCode]
    cases hcode : o.code with
    | some c => exact hm.code c hcode
    | none =>
      dsimp only
      split
      · rename_i hhash
        rw [hhash]
        -- nothing is stored under the hash of no code
        cases hstored : b.code emptyCodeHash with
        | none => rfl
        | some c =>
          obtain ⟨hc, hmem, hne⟩ := hb _ c hstored
          exact absurd (hinj hmem hnil (hc.trans hempty.symm)) hne
      · rfl

/-- After the last commit of a session all of whose steps are orderly, the keeper holds for
every account in the cache that has not destroyed itself what the getters return, and for every
other account what it held at the start. -/
theorem keeper_eq_getters_after_commit (hinj : Set.InjOn keccak codes)
    (hempty : keccak [] = emptyCodeHash) (hnil : [] ∈ codes)
    (hb₀ : ContentAddressed keccak codes b₀) (txConfig : TxConfig) (s : Session)
    (hreach : Path (step keccak) (Orderly codes) (.new b₀ txConfig) s) (k : Keeper)
    (refuses : Refusal) (hmodule : (s.backend.accounts k.moduleAccount).isSome) (db' : StateDB)
    (b' : Backend) (hcommit : (commit k refuses).run (s.db, s.backend) = ((db', b'), .ok ())) :
    (∀ a, (db'.stateObjects a).isSome → db'.hasSuicided b' a = false →
      b'.getAccount a = some ⟨db'.getNonce b' a, db'.getBalance b' a, db'.getCodeHash b' a⟩ ∧
        (∀ key, b'.storage a key = db'.getState b' a key) ∧
        (b'.code (db'.getCodeHash b' a)).getD [] = (db'.getCode b' a).getD []) ∧
      ∀ a, db'.stateObjects a = none →
        b'.accounts a = b₀.accounts a ∧ b'.bank a = b₀.bank a ∧ b'.storage a = b₀.storage a := by
  have hs : s.Coherent keccak codes b₀ :=
    Path.invariant (fun _ _ _ ht hok hl => ht.step hinj hok hl) (.new hb₀ txConfig) hreach
  obtain ⟨-, hend⟩ := hs.commit hinj hmodule hcommit
  refine ⟨?_, hend.untouched⟩
  intro a hcached hsuicided
  obtain ⟨o, ho⟩ := isSome_iff_exists.mp hcached
  have halive : o.suicided = false := by
    simp only [hasSuicided, find?_of_stateObjects b' db' a ho] at hsuicided
    exact hsuicided
  exact (hend.written a o ho halive not_mem_nil).getters (hend.slots a o ho halive)
    (hend.objects a o ho) hend.stored hinj hempty hnil ho

end

namespace CommittedFrames

def contract : Address := .ofNat 1
def created : Address := .ofNat 2
def evmKeeper : Keeper := ⟨.ofNat 9⟩
def refuses : Refusal := fun _ _ _ => false

/-- A contract with one slot, and the module account. -/
def backend : Backend where
  accounts := fun a =>
    if a = contract then some ⟨1, some 5⟩
    else if a = evmKeeper.moduleAccount then some .fresh else none
  bank := fun a => if a = contract then 10 else 0
  supply := 10
  storage := fun a key => if a = contract ∧ key = 1 then 3 else 0
  code := fun h => if h = 5 then some [0x5b] else none

def keccak (code : List UInt8) : Hash := if code = [0x5b] then 5 else emptyCodeHash

def codes : Set (List UInt8) := {c | c = [0x5b] ∨ c = []}

instance : DecidablePred (· ∈ codes) := fun c =>
  inferInstanceAs (Decidable (c = [0x5b] ∨ c = []))

theorem contentAddressed : ContentAddressed keccak codes backend := by
  intro _ _ hc
  simp only [backend] at hc
  split at hc
  · rename_i hh
    cases hc
    exact ⟨hh.symm, .inl rfl, by decide⟩
  · cases hc

theorem injOn_keccak : Set.InjOn keccak codes :=
  Set.injOn_pair.mpr fun h => absurd h (by decide)

/-- The contract writes its slot, then a frame writes it, pays and commits, and is reverted. -/
def orderly : List Session.Label :=
  [.call (.setState contract 1 4), .call .snapshot, .call (.setState contract 1 7),
    .call (.subBalance contract 6), .commit evmKeeper refuses, .call (.revertToSnapshot 0)]

/-- A frame writes the slot of a contract that nothing else has written, opens an account and
commits, and is reverted. -/
def reverted : List Session.Label :=
  [.call .snapshot, .call (.setState contract 1 7), .call (.addBalance created 2),
    .commit evmKeeper refuses, .call (.revertToSnapshot 0)]

end CommittedFrames

open CommittedFrames in
/-- The contract is still dirty, so the last commit writes its slot and its balance back. -/
theorem keeper_eq_getters_after_rewrite :
    ∃ s db' b', Path (step keccak) (Orderly codes) (.new backend ⟨0, 0, 0, 0⟩) s ∧
      s.backend.storage contract 1 = 7 ∧ s.backend.bank contract = 4 ∧
      (commit evmKeeper refuses).run (s.db, s.backend) = ((db', b'), .ok ()) ∧
      b'.storage contract 1 = 4 ∧ b'.getAccount contract = some ⟨1, 10, 5⟩ := by
  obtain ⟨s, hreach, hslot, hbank, hmodule, hresult, hcached, hsuicided, hstate, hacc⟩ :
      ∃ s, Path (step keccak) (Orderly codes) (.new backend ⟨0, 0, 0, 0⟩) s ∧
        s.backend.storage contract 1 = 7 ∧ s.backend.bank contract = 4 ∧
        (s.backend.accounts evmKeeper.moduleAccount).isSome ∧
        let r := (commit evmKeeper refuses).run (s.db, s.backend)
        r.2.toBool ∧ (r.1.1.stateObjects contract).isSome ∧
          r.1.1.hasSuicided r.1.2 contract = false ∧ r.1.1.getState r.1.2 contract 1 = 4 ∧
          (⟨r.1.1.getNonce r.1.2 contract, r.1.1.getBalance r.1.2 contract,
            r.1.1.getCodeHash r.1.2 contract⟩ : Account) = ⟨1, 10, 5⟩ :=
    exists_path (new backend ⟨0, 0, 0, 0⟩) orderly (by decide +kernel)
  rcases hrun : (commit evmKeeper refuses).run (s.db, s.backend) with ⟨⟨db', b'⟩, _ | ⟨⟩⟩
  · rw [hrun] at hresult
    cases hresult
  rw [hrun] at hcached hsuicided hstate hacc
  obtain ⟨hkeeper, hstorage, -⟩ := (keeper_eq_getters_after_commit injOn_keccak (by decide)
    (.inr rfl) contentAddressed ⟨0, 0, 0, 0⟩ s hreach evmKeeper refuses hmodule db' b' hrun).1
    contract hcached hsuicided
  refine ⟨s, db', b', hreach, hslot, hbank, hrun, ?_, ?_⟩
  · rw [hstorage 1]
    exact hstate
  · rw [hkeeper]
    exact congrArg some hacc

open CommittedFrames in
/-- The contract is not dirty, and the opened account is not known any more: both keep in the
keeper what the frame had committed. -/
theorem committed_in_reverted_frame :
    ∃ s, Path (step keccak) (fun _ _ => True) (.new backend ⟨0, 0, 0, 0⟩) s ∧
      let r := (commit evmKeeper refuses).run (s.db, s.backend)
      r.2.toBool ∧ (r.1.1.stateObjects contract).isSome ∧
        r.1.1.hasSuicided r.1.2 contract = false ∧
        r.1.1.getState r.1.2 contract 1 = 3 ∧ r.1.2.storage contract 1 = 7 ∧
        (r.1.1.stateObjects created).isNone ∧ (backend.accounts created).isNone ∧
        (r.1.2.accounts created).isSome ∧ r.1.2.bank created = 2 :=
  exists_path (new backend ⟨0, 0, 0, 0⟩) reverted (by decide +kernel)

end HyperPax.Evm
