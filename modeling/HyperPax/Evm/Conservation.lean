/-
  Evm/Conservation.lean --- when a transaction's two ledgers agree with one.

  Between the operations of a transaction the invariant is `Reflects`: the next commit
  would leave exactly the one ledger of the history variable.  A value transfer keeps it
  when the accounts it makes dirty are in step with the bank, and a precompile keeps it
  when the accounts it moves coins between are clean.  Since neither ledger's total
  changes, the commit then mints exactly as much as it burns.

  Without the condition a stale balance is written over a transfer that a precompile
  made: `dirtyPayer_mints` is a contract that writes a storage slot and then opens a
  stream.
-/
import HyperPax.Evm.Transaction
import HyperPax.Precompiles.Atomicity
import HyperPax.Precompiles.Transfers

set_option autoImplicit false

namespace HyperPax.Evm

open Lib StateDB Function Precompiles World

/-! ## Entering a call -/

section

variable {b : Backend} {db db' : StateDB} {l : Address → Int} {a : Address} {n : Int}
  {journaled : Prop}

/-- The accounts a call frame makes dirty are in step with the bank. -/
def EnterOk (b : Backend) (db : StateDB) (caller callee : Address) (value : Nat) : Prop :=
  ∀ a ∈ [caller, callee], 0 < value ∨ db.exist b a = false → Synced b db a
deriving Decidable

section

variable (hw : db.Writes db' a n journaled)

include hw

theorem Synced.of_writes_other {x : Address} (hx : x ≠ a) (h : Synced b db x) : Synced b db' x := by
  refine h.imp (fun hd => (hw.dirty x).mpr (.inl hd)) fun hbal => ?_
  rw [← hbal]
  unfold getBalance find?
  rw [hw.other x hx]

theorem exist_of_writes_other {x : Address} (hx : x ≠ a) : db'.exist b x = db.exist b x := by
  unfold exist find?
  rw [hw.other x hx]

theorem exist_of_writes_self : db'.exist b a := by
  obtain ⟨_, ho, -⟩ := hw.object
  simp [exist, find?, ho]

end

theorem reflects_transfer (h : Reflects b db l) (hnone : db.NoneSuicided) {src dst : Address}
    {n : Nat} (hok : EnterOk b db src dst n) :
    Reflects b (transfer b db src dst n) (moved l src dst n) := by
  have hsrc := h.subBalance hnone (a := src) (n := n) fun hor =>
    hok src (by simp) (hor.imp_left (by omega))
  have hw := db.writes_subBalance b src n
  have hdst := hsrc.addBalance (hw.noneSuicided hnone) (a := dst) (n := n) (fun hor => by
    by_cases hx : dst = src
    · subst hx
      rcases hor with hn | hexist
      · exact .inl ((hw.dirty _).mpr (.inr ⟨rfl, .inl hn⟩))
      · rw [exist_of_writes_self hw] at hexist
        cases hexist
    · rw [exist_of_writes_other hw hx] at hor
      exact (hok dst (by simp) (hor.imp_left (by omega))).of_writes_other hw hx)
  have hledger : moved l src dst n =
      update (update l src (l src - n)) dst
        (update l src (l src - n) dst + n) := by
    funext a
    rw [moved, update_apply, update_apply, update_apply]
    by_cases hd : a = dst
    · subst hd
      by_cases hs : a = src <;> simp [hs]
    by_cases hs : a = src
    · subst hs
      simp [hd]
    · simp [hd, hs]
  rw [hledger]
  exact hdst

theorem reflects_enter (h : Reflects b db l) (hnone : db.NoneSuicided) {caller callee : Address}
    {value : Nat} (hok : EnterOk b db caller callee value) :
    Reflects b (enter b db caller callee value) (moved l caller callee value) := by
  unfold enter
  split
  · exact reflects_transfer h hnone hok
  rename_i hexist
  have hexist : db.exist b callee = false := by simpa using hexist
  have hw := db.writes_createAccount b callee hexist
  refine reflects_transfer (h.createAccount hnone hexist (hok callee (by simp) (.inr hexist)))
    (hw.noneSuicided hnone) ?_
  intro a ha hor
  by_cases hx : a = callee
  · subst hx
    exact .inl ((hw.dirty a).mpr (.inr ⟨rfl, trivial⟩))
  · rw [exist_of_writes_other hw hx] at hor
    exact (hok a ha hor).of_writes_other hw hx

/-- What a call frame does to the StateDB before and beside the precompile can be undone,
keeps every object alive and every dirty account dirty, and leaves the snapshots alone. -/
structure Frame (db db' : StateDB) : Prop where
  undoable : db.Undoable db'
  noneSuicided : db.NoneSuicided → db'.NoneSuicided
  dirty : ∀ a, db.Dirty a → db'.Dirty a
  validRevisions : db'.validRevisions = db.validRevisions
  nextRevisionID : db'.nextRevisionID = db.nextRevisionID

theorem Frame.trans {db₁ db₂ : StateDB} (h₁ : Frame db db₁) (h₂ : Frame db₁ db₂) :
    Frame db db₂ where
  undoable := h₁.undoable.trans h₂.undoable
  noneSuicided := fun h => h₂.noneSuicided (h₁.noneSuicided h)
  dirty := fun a h => h₂.dirty a (h₁.dirty a h)
  validRevisions := h₂.validRevisions.trans h₁.validRevisions
  nextRevisionID := h₂.nextRevisionID.trans h₁.nextRevisionID

theorem Frame.of_writes (hw : db.Writes db' a n journaled) (hundo : db.Undoable db')
    (hvalid : db'.validRevisions = db.validRevisions)
    (hnext : db'.nextRevisionID = db.nextRevisionID) : Frame db db' where
  undoable := hundo
  noneSuicided := hw.noneSuicided
  dirty := fun x hx => (hw.dirty x).mpr (.inl hx)
  validRevisions := hvalid
  nextRevisionID := hnext

theorem frame_addBalance (b : Backend) (db : StateDB) (a : Address) (n : Int) :
    Frame db (db.addBalance b a n) := by
  refine .of_writes (db.writes_addBalance b a n) (undoable_addBalance b a n) ?_ ?_ <;>
    rw [addBalance_eq] <;> unfold getOrNew <;> split <;> split <;> rfl

theorem frame_subBalance (b : Backend) (db : StateDB) (a : Address) (n : Int) :
    Frame db (db.subBalance b a n) := by
  rw [subBalance_eq_addBalance]
  exact frame_addBalance b db a (-n)

theorem frame_createAccount (h : db.exist b a = false) : Frame db (db.createAccount b a) := by
  refine .of_writes (db.writes_createAccount b a h) (undoable_createAccount h) ?_ ?_ <;>
    unfold createAccount <;> split <;> rfl

theorem frame_enter (b : Backend) (db : StateDB) (caller callee : Address) (value : Nat) :
    Frame db (enter b db caller callee value) := by
  have htransfer : ∀ db : StateDB, Frame db (transfer b db caller callee value) := fun db =>
    (frame_subBalance b db caller value).trans (frame_addBalance b _ callee value)
  unfold enter
  split
  · exact htransfer db
  · rename_i hexist
    exact (frame_createAccount (by simpa using hexist)).trans (htransfer _)

theorem frame_correct (b : Backend) (db : StateDB) (c : Precompiles.Call) :
    Frame db (correct b db c) := by
  unfold correct
  split
  · exact frame_subBalance b db _ _
  · exact ⟨.of_extends .refl rfl, id, fun _ h => h, rfl, rfl⟩

theorem Frame.revertToSnapshot (h : Frame db.snapshot.1 db')
    (hrevs : ∀ r ∈ db.validRevisions, r.1 < db.nextRevisionID) (b : Backend) :
    ∃ db₁, db'.revertToSnapshot b db.snapshot.2 = some db₁ ∧ db₁.journal = db.journal ∧
      db.Extends db₁ ∧ (db.NoneSuicided → db₁.NoneSuicided) ∧
      db₁.validRevisions = db.validRevisions ∧ db₁.nextRevisionID = db.nextRevisionID + 1 := by
  obtain ⟨hjournal, hextends, hnone⟩ := h.undoable.revert b
  have hvalid : db'.validRevisions =
      db.validRevisions ++ [(db.nextRevisionID, db.journal.length)] := h.validRevisions
  refine ⟨{ db'.revert b db.journal.length with validRevisions := db.validRevisions },
    revertToSnapshot_eq_some.mpr ⟨_, [], _, hvalid, hrevs, rfl⟩,
    hjournal, hextends, fun h' => hnone (h.noneSuicided h'), rfl, ?_⟩
  rw [revert_nextRevisionID, h.nextRevisionID]
  rfl

end

/-! ## The condition on a step -/

/-- A schedule that takes the deposit and then fails. -/
def RejectedAfterEscrow (k : Precompiles.Keepers) (env : Precompiles.Env) (s : Precompiles.Chain)
    (c : Precompiles.Call) : Prop :=
  match c.method with
  | .schedule target _ executeAtBlock gasLimit =>
    Precompiles.EscrowedThenRejected k env s c.caller c.value target executeAtBlock gasLimit
  | _ => False

instance (k : Precompiles.Keepers) (env : Precompiles.Env) (s : Precompiles.Chain)
    (c : Precompiles.Call) : Decidable (RejectedAfterEscrow k env s c) := by
  obtain ⟨_, _, _, method⟩ := c
  cases method with
  | schedule => exact inferInstanceAs (Decidable (Precompiles.EscrowedThenRejected ..))
  | _ => exact .isFalse id

/-- The accounts that must be clean when the precompile starts.  The caller of a schedule
with a value is not among them: the StateDB has debited it already. -/
def unmirrored (k : Precompiles.Keepers) (s : Precompiles.Chain) (c : Precompiles.Call) :
    List Address :=
  if Redirects c then [k.scheduler.moduleAccount] else touched k s c

/-- A call of a precompile that does not get the two ledgers out of step. -/
structure CallOk (k : Precompiles.Keepers) (env : Precompiles.Env) (c : Precompiles.Call)
    (w : World) (db : StateDB) : Prop where
  enters : EnterOk w.backend db c.caller (callee c.method) c.value
  clean : ∀ a ∈ unmirrored k w.chain c,
    ¬ (enter w.backend db.snapshot.1 c.caller (callee c.method) c.value).Dirty a
  rejected : RejectedAfterEscrow k env w.chain c → ¬ db.Dirty c.caller

instance (k : Precompiles.Keepers) (env : Precompiles.Env) (c : Precompiles.Call) (w : World)
    (db : StateDB) : Decidable (CallOk k env c w db) :=
  decidable_of_iff (EnterOk w.backend db c.caller (callee c.method) c.value ∧
      (∀ a ∈ unmirrored k w.chain c,
        ¬ (enter w.backend db.snapshot.1 c.caller (callee c.method) c.value).Dirty a) ∧
      (RejectedAfterEscrow k env w.chain c → ¬ db.Dirty c.caller))
    ⟨fun ⟨h₁, h₂, h₃⟩ => ⟨h₁, h₂, h₃⟩, fun ⟨h₁, h₂, h₃⟩ => ⟨h₁, h₂, h₃⟩⟩

/-- The condition on an operation: an account it makes dirty has in the StateDB the
balance it has in the bank, and an account a precompile moves coins of is clean. -/
def InStep (k : Precompiles.Keepers) (c : Config) : Label → Prop
  | .load _ => True
  | .transfer src dst n =>
    ¬ Insufficient c.world.backend c.db src n →
      ¬ (c.db.exist c.world.backend dst = false ∧ n = 0) →
        EnterOk c.world.backend c.db src dst n
  | .setState a key value =>
    c.db.ChangesState c.world.backend a key value ∨ c.db.exist c.world.backend a = false →
      Synced c.world.backend c.db a
  | .call env call =>
    ¬ Insufficient c.world.backend c.db call.caller call.value →
      CallOk k env call c.world c.db

instance (k : Precompiles.Keepers) (c : Config) (l : Label) : Decidable (InStep k c l) := by
  unfold InStep
  split <;> infer_instance

/-! ## Calls of a precompile -/

section

variable {k : Precompiles.Keepers} {env : Precompiles.Env} {c : Precompiles.Call} {w : World}
  {db : StateDB} {l : Address → Int} {s : Precompiles.Chain} {out : List Int}

theorem dirty_enter (b : Backend) (db : StateDB) (caller callee : Address) {value : Nat}
    (h : 0 < value) : (enter b db caller callee value).Dirty caller ∧
      (enter b db caller callee value).Dirty callee := by
  have hne : (value : Int) ≠ 0 := by omega
  unfold enter transfer
  rw [((writes_addBalance b _ callee value).dirty caller),
    ((writes_addBalance b _ callee value).dirty callee)]
  exact ⟨.inl (((writes_subBalance b _ caller value).dirty caller).mpr
    (.inr ⟨rfl, .inl hne⟩)), .inr ⟨rfl, .inl hne⟩⟩

theorem mem_touched_of_ne {r : Except Precompiles.Err (List Int)}
    (hrun : (run k env c).run w.chain = (s, r)) {a : Address}
    (hne : (w.setChain s).backend.bank a ≠ w.backend.bank a) : a ∈ touched k w.chain c := by
  by_contra hnot
  have hmoves := run_moves k env c w.chain
  rw [hrun] at hmoves
  have hsame := hmoves.other hnot
  rw [chain_bank] at hsame
  exact hne hsame

theorem Redirects.method_eq (h : Redirects c) :
    c.readOnly = false ∧ 0 < c.value ∧ ∃ target callData executeAtBlock gasLimit,
      c.method = .schedule target callData executeAtBlock gasLimit := by
  unfold Redirects at h
  split at h
  · rename_i target callData executeAtBlock gasLimit hmethod
    exact ⟨h.1, h.2, target, callData, executeAtBlock, gasLimit, hmethod⟩
  · exact h.elim

theorem touched_of_redirects (h : Redirects c) (s : Precompiles.Chain) :
    touched k s c = [c.caller, k.scheduler.moduleAccount] := by
  obtain ⟨-, _, _, _, _, _, hmethod⟩ := h.method_eq
  unfold touched
  rw [hmethod]
  exact if_neg (by omega)

theorem bank_of_redirects (h : Redirects c) (hrun : (run k env c).run w.chain = (s, .ok out)) :
    c.value ≤ w.backend.bank c.caller ∧
      s.bank = w.backend.bank.transfer c.caller k.scheduler.moduleAccount c.value := by
  obtain ⟨hreadOnly, -, target, callData, executeAtBlock, gasLimit, hmethod⟩ := h.method_eq
  rw [run, Action.run_rejectIf_bind, if_neg (by simp [hreadOnly]), hmethod] at hrun
  have hbank := handleSchedule_bank k env w.chain c.caller c.value target callData
    executeAtBlock gasLimit
  rw [hrun, chain_bank] at hbank
  rcases hbank with ⟨-, -, _, he⟩ | hmoved
  · cases he
  · exact hmoved

theorem bank_of_redirects_error (h : Redirects c) {e : Precompiles.Err}
    (hrun : (run k env c).run w.chain = (s, .error e))
    (hnot : ¬ RejectedAfterEscrow k env w.chain c) : s = w.chain := by
  obtain ⟨hreadOnly, -, target, callData, executeAtBlock, gasLimit, hmethod⟩ := h.method_eq
  rw [run, Action.run_rejectIf_bind, if_neg (by simp [hreadOnly]), hmethod] at hrun
  rw [RejectedAfterEscrow, hmethod] at hnot
  exact (atomicAt_handleSchedule k env w.chain c.caller c.value target callData
    executeAtBlock gasLimit).mpr hnot s e hrun

theorem update_moved (l : Address → Int) (src dst a : Address) (n : Nat) :
    update (moved l src dst n) dst (moved l src dst n dst - n) a =
      l a - if a = src then (n : Int) else 0 := by
  rw [update_apply, moved, moved]
  split
  · rename_i h
    subst h
    rw [if_pos rfl]
    omega
  · rw [add_zero]

variable (h : Reflects w.backend db l)

include h

theorem reflects_redirected (hnone : db.NoneSuicided) (hok : CallOk k env c w db)
    (hredir : Redirects c) (hrun : (run k env c).run w.chain = (s, .ok out)) :
    Reflects (w.setChain s).backend
      (correct w.backend (enter w.backend db.snapshot.1 c.caller (callee c.method) c.value) c)
      fun a => l a + (((w.setChain s).backend.bank a : Int) - w.backend.bank a) := by
  obtain ⟨-, hpos, -⟩ := hredir.method_eq
  obtain ⟨hcov, hbank⟩ := bank_of_redirects hredir hrun
  obtain ⟨hcaller, hcallee⟩ := dirty_enter w.backend db.snapshot.1 c.caller (callee c.method) hpos
  have hsnapshot : Reflects w.backend db.snapshot.1 l := h.of_extends .refl rfl
  have hentered := reflects_enter hsnapshot hnone hok.enters
  have hmodule := hok.clean k.scheduler.moduleAccount (by simp [unmirrored, hredir])
  have hnone₁ :=
    (frame_enter w.backend db.snapshot.1 c.caller (callee c.method) c.value).noneSuicided
    hnone
  generalize enter w.backend db.snapshot.1 c.caller (callee c.method) c.value = db₁ at *
  have hw := db₁.writes_subBalance w.backend (callee c.method) c.value
  have hcorrected := hentered.subBalance hnone₁ (a := callee c.method) (n := c.value)
    fun _ => .inl hcallee
  have hdirty : ∀ a, (db₁.subBalance w.backend (callee c.method) c.value).Dirty a ↔
      db₁.Dirty a := by
    intro a
    rw [hw.dirty]
    exact ⟨fun h => h.elim id fun h => h.1 ▸ hcallee, .inl⟩
  rw [correct, if_pos hredir]
  have hmoved : ∀ a, ((w.setChain s).backend.bank a : Int) = w.backend.bank a -
      (if a = c.caller then (c.value : Int) else 0) +
        (if a = k.scheduler.moduleAccount then (c.value : Int) else 0) := by
    intro a
    rw [setChain_bank, hbank]
    exact Ledger.transfer_int _ _ _ hcov
  constructor
  · intro a ha
    obtain ⟨o, ho, halive, hbal⟩ := hcorrected.dirty a ha
    have hnotModule : a ≠ k.scheduler.moduleAccount := by
      rintro rfl
      exact hmodule ((hdirty _).mp ha)
    refine ⟨o, ho, halive, ?_⟩
    rw [hbal, update_moved, hmoved, if_neg hnotModule]
    omega
  · intro a ha
    have hnotCaller : a ≠ c.caller := by
      rintro rfl
      exact ha ((hdirty _).mpr hcaller)
    have hclean := hcorrected.clean a ha
    rw [update_moved, if_neg hnotCaller] at hclean
    omega

theorem reflects_unredirected (hnone : db.NoneSuicided) (hok : CallOk k env c w db)
    (hredir : ¬ Redirects c) (hrun : (run k env c).run w.chain = (s, .ok out)) :
    Reflects (w.setChain s).backend
      (correct w.backend (enter w.backend db.snapshot.1 c.caller (callee c.method) c.value) c)
      fun a => moved l c.caller (callee c.method) c.value a +
        (((w.setChain s).backend.bank a : Int) - w.backend.bank a) := by
  have hsnapshot : Reflects w.backend db.snapshot.1 l := h.of_extends .refl rfl
  have hentered := reflects_enter hsnapshot hnone hok.enters
  rw [correct, if_neg hredir]
  refine hentered.bank fun a hne => hok.clean a ?_
  rw [unmirrored, if_neg hredir]
  exact mem_touched_of_ne hrun hne

theorem reflects_failed (hok : CallOk k env c w db) {e : Precompiles.Err}
    (hrun : (run k env c).run w.chain = (s, .error e)) {db' : StateDB}
    (hjournal : db'.journal = db.journal) (hextends : db.Extends db') :
    Reflects (w.setChain s).backend db'
      fun a => l a + (((w.setChain s).backend.bank a : Int) - w.backend.bank a) := by
  have hframe := frame_enter w.backend db.snapshot.1 c.caller (callee c.method) c.value
  refine (h.bank fun a hne hdirty => ?_).of_extends hextends hjournal
  have htouched := mem_touched_of_ne hrun hne
  by_cases hredir : Redirects c
  · rw [touched_of_redirects hredir] at htouched
    by_cases hrejected : RejectedAfterEscrow k env w.chain c
    · rcases List.mem_pair.mp htouched with rfl | rfl
      · exact hok.rejected hrejected hdirty
      · exact hok.clean _ (by simp [unmirrored, hredir]) (hframe.dirty _ hdirty)
    · rw [bank_of_redirects_error hredir hrun hrejected, setChain_bank, chain_bank] at hne
      exact hne rfl
  · refine hok.clean a ?_ (hframe.dirty a hdirty)
    rw [unmirrored, if_neg hredir]
    exact htouched

end

/-! ## Runs -/

/-- The invariant of a transaction. -/
structure Accounted (supply : Int) (c : Config) : Prop where
  reflects : Reflects c.world.backend c.db c.ledger
  noneSuicided : c.db.NoneSuicided
  revisions : ∀ r ∈ c.db.validRevisions, r.1 < c.db.nextRevisionID
  total_eq : total c.ledger = total fun a => c.world.backend.bank a
  supply_eq : c.world.backend.supply = supply

theorem accounted_start (w : World) (txConfig : TxConfig) :
    Accounted w.backend.supply (.start w txConfig) where
  reflects := .new w.backend txConfig
  noneSuicided := fun _ _ h => by cases h
  revisions := fun _ h => absurd h List.not_mem_nil
  total_eq := rfl
  supply_eq := rfl

namespace Accounted

variable {k : Precompiles.Keepers} {supply : Int} {c c' : Config}

theorem load (h : Accounted supply c) (a : Address) :
    Accounted supply { c with db := c.db.touch c.world.backend a } := by
  refine ⟨h.reflects.touch, ?_, ?_, h.total_eq, h.supply_eq⟩
  · unfold touch
    split
    · rename_i o ho
      exact h.noneSuicided.setStateObject (h.noneSuicided.find? ho)
    · exact h.noneSuicided
  · unfold touch
    split <;> exact h.revisions

variable (h : Accounted supply c)

include h

theorem transfer {src dst : Address} {n : Nat} (hok : InStep k c (.transfer src dst n))
    (hstep : step k c (.transfer src dst n) = some c') : Accounted supply c' := by
  simp only [step, callAccount] at hstep
  split at hstep
  · cases hstep
    exact h.load src
  rename_i hfunds
  split at hstep
  · rename_i hnothing
    cases hstep
    -- nothing is moved between the two accounts
    have hzero : moved c.ledger src dst n = c.ledger := by
      funext a
      simp [moved, hnothing.2]
    refine ⟨?_, h.noneSuicided, h.revisions, ?_, h.supply_eq⟩
    · rw [if_pos rfl, hzero]
      exact h.reflects
    · rw [if_pos rfl, hzero]
      exact h.total_eq
  · rename_i hsomething
    cases hstep
    have hframe := frame_enter c.world.backend c.db src dst n
    refine ⟨reflects_enter h.reflects h.noneSuicided (hok hfunds hsomething),
      hframe.noneSuicided h.noneSuicided, ?_, ?_, h.supply_eq⟩
    · rw [hframe.validRevisions, hframe.nextRevisionID]
      exact h.revisions
    · rw [if_pos rfl, total_moved]
      exact h.total_eq

theorem setState {a : Address} {key value : Hash} (hok : InStep k c (.setState a key value)) :
    Accounted supply { c with db := c.db.setState c.world.backend a key value } := by
  have hw := c.db.writes_setState c.world.backend a key value
  refine ⟨h.reflects.setState h.noneSuicided hok, hw.noneSuicided h.noneSuicided, ?_, h.total_eq,
    h.supply_eq⟩
  have hrevs : (c.db.setState c.world.backend a key value).validRevisions =
      c.db.validRevisions ∧ (c.db.setState c.world.backend a key value).nextRevisionID =
        c.db.nextRevisionID := by
    rw [setState_eq]
    unfold getOrNew
    split <;> split <;> exact ⟨rfl, rfl⟩
  rw [hrevs.1, hrevs.2]
  exact h.revisions

theorem total_ledgerAfterCall (call : Precompiles.Call) (succeeded : Bool) (bank : Ledger) :
    total (ledgerAfterCall c.ledger call succeeded c.world.backend.bank bank) =
      total fun a => bank a := by
  unfold ledgerAfterCall
  rw [total_add_sub]
  split
  · rw [total_moved, h.total_eq]
    omega
  · rw [h.total_eq]
    omega

theorem call {env : Precompiles.Env} {call : Precompiles.Call} (hok : InStep k c (.call env call))
    (hstep : step k c (.call env call) = some c') : Accounted supply c' := by
  simp only [step, callPrecompile] at hstep
  split at hstep
  · cases hstep
    have hledger : ledgerAfterCall c.ledger call false c.world.backend.bank c.world.backend.bank =
        c.ledger := by
      funext a
      simp [ledgerAfterCall]
    rw [hledger]
    exact h.load call.caller
  rename_i hfunds
  have hok := hok hfunds
  have hframe := (frame_enter c.world.backend c.db.snapshot.1 call.caller (callee call.method)
    call.value).trans (frame_correct c.world.backend _ call)
  have hnone : c.db.snapshot.1.NoneSuicided := h.noneSuicided
  rcases hrun : (run k env call).run c.world.chain with ⟨s, _ | _⟩
  · -- the frame is reverted
    rw [hrun] at hstep
    obtain ⟨_, hrevert, hjournal, hextends, hnone₁, hvalid, hnext⟩ :=
      hframe.revertToSnapshot h.revisions (c.world.setChain s).backend
    simp only [hrevert, Option.getD_some] at hstep
    cases hstep
    refine ⟨?_, hnone₁ h.noneSuicided, ?_, h.total_ledgerAfterCall _ false _, h.supply_eq⟩
    · exact reflects_failed h.reflects hok hrun hjournal hextends
    intro r hr
    rw [hvalid] at hr
    rw [hnext]
    exact Nat.lt_succ_of_lt (h.revisions r hr)
  · rw [hrun] at hstep
    cases hstep
    refine ⟨?_, hframe.noneSuicided hnone, ?_, h.total_ledgerAfterCall _ true _, h.supply_eq⟩
    · by_cases hredir : Redirects call
      · have hreflects := reflects_redirected h.reflects h.noneSuicided hok hredir hrun
        simpa only [ledgerAfterCall, hredir, not_true, and_false, if_false] using hreflects
      · have hreflects := reflects_unredirected h.reflects h.noneSuicided hok hredir hrun
        simpa only [ledgerAfterCall, hredir, not_false_iff, and_true, if_true] using hreflects
    intro r hr
    rw [hframe.validRevisions] at hr
    rw [hframe.nextRevisionID]
    rcases List.mem_append.mp hr with hr | hr
    · exact Nat.lt_succ_of_lt (h.revisions r hr)
    · rw [List.mem_singleton.mp hr]
      exact Nat.lt_succ_self _

theorem step {label : Label} (hok : InStep k c label) (hstep : Evm.step k c label = some c') :
    Accounted supply c' := by
  cases label with
  | load a =>
    cases hstep
    exact h.load a
  | transfer => exact h.transfer hok hstep
  | setState =>
    cases hstep
    exact h.setState hok
  | call => exact h.call hok hstep

end Accounted

namespace OpenedStream

def account : Address := .ofNat 1
def other : Address := .ofNat 2
def payee : Address := .ofNat 3
def keepers : Precompiles.Keepers := ⟨⟨.ofNat 100⟩, ⟨.ofNat 101⟩⟩
def evm : Keeper := ⟨.ofNat 102⟩

/-- Two accounts with 100 and 20 coins. -/
def world : World where
  backend :=
    { accounts := fun a => if a = account ∨ a = other then some .fresh else none
      bank := fun a => if a = account then 100 else if a = other then 20 else 0
      supply := 120
      storage := fun _ _ => 0
      code := fun _ => none }
  scheduler := ∅
  streams := ∅
  tokens := fun _ _ => 0

def txConfig : TxConfig := ⟨0, 0, 0, 0⟩

def env : Precompiles.Env where
  height := 4
  now := 1000
  scheduler := ⟨none, fun _ _ _ => false⟩
  streams.first := ⟨fun _ _ _ => false, fun _ _ _ _ => .moves⟩
  streams.second := ⟨fun _ _ _ => false, fun _ _ _ _ => .moves⟩

/-- The account opens a native stream with a cap of 40. -/
def openCall : Label :=
  .call env ⟨account, 0, false, .openStream payee .zero 1 0 0 40⟩

/-- What a successful commit leaves: the supply, the account's balance in the bank, and
its balance in the one ledger. -/
def committed (c : Config) : Option (Int × Nat × Int) :=
  match (commit evm fun _ _ _ => false).run (c.db, c.world.backend) with
  | ((_, b), .ok _) => some (b.supply, b.bank account, c.ledger account)
  | _ => none

theorem committed_eq_some {c : Config} {v : Int × Nat × Int} (h : committed c = some v) :
    ∃ db' b', (commit evm fun _ _ _ => false).run (c.db, c.world.backend) =
      ((db', b'), .ok ()) ∧ v = (b'.supply, b'.bank account, c.ledger account) := by
  unfold committed at h
  split at h
  · rename_i db' b' _ hrun
    cases h
    exact ⟨db', b', hrun, rfl⟩
  · cases h

end OpenedStream

end HyperPax.Evm
