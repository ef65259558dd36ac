/-
  Evm/Nonces.lean --- account sequences and the nonces of delivered messages.

  Source: app/ante/evm/eth.go (EthIncrementSenderSequenceDecorator),
  x/evm/keeper/state_transition.go (ApplyTransaction, ApplyMessageWithConfig).

  A delivered transaction carries Ethereum messages.  The ante handler compares each
  message's nonce with the stored sequence of its sender and increments the sequence, for
  all messages, before the first of them is executed.  Executing a contract creation
  writes the sender's nonce again, from the message.  The ante handler's writes stay
  when a message fails; the messages' writes stay only when none of them returns an
  error.  What the EVM and the hooks make of a message is left open.  Nonces of
  contract accounts and EIP-7702 authorizations are not part of the model.
-/
import HyperPax.Base.Address
import HyperPax.Lib.Action
import HyperPax.Lib.Transition

set_option autoImplicit false

namespace HyperPax.Evm.Nonces

open Lib Action List Function

/-! ## Messages and sequences -/

/-- An Ethereum message: who signed it, with which nonce, and whether it has no recipient
and so creates a contract. -/
structure Msg where
  sender : Address
  nonce : UInt64
  creation : Bool
deriving DecidableEq

/-- The stored sequences; `none` for an address without an account. -/
abbrev Sequences : Type := Address → Option UInt64

/-- What comes of a message. -/
structure Outcome where
  /-- `ApplyTransaction` returns an error: the EVM is disabled, gas runs over, the refund
  or the commit of the StateDB fails -/
  error : Option String
  /-- `Create` gives up before it has incremented the sender's nonce -/
  createRejected : Bool
  /-- the EVM reports a failure -/
  vmFailed : Bool
  /-- a hook of `PostTxProcessing` returns an error -/
  hooksFail : Bool
  /-- accounts that the execution opens -/
  opened : List Address

/-- The messages of a transaction, each with what comes of it. -/
abbrev Tx : Type := List (Msg × Outcome)

def msgs (tx : Tx) : List Msg := tx.map Prod.fst

/-- The EVM keeper, with or without hooks. -/
structure Keeper where
  hooks : Bool

def setSequence (s : Sequences) (a : Address) (n : UInt64) : Sequences :=
  update s a (some n)

/-! ## The ante handler -/

inductive AnteError where
  | unknownAddress (account : Address)
  | invalidSequence (got expected : UInt64)
deriving DecidableEq

/-- `EthIncrementSenderSequenceDecorator.AnteHandle`. -/
def incrementSequences : List Msg → Action Sequences AnteError Unit
  | [] => pure ()
  | m :: ms => do
    let acc ← .gets fun s => s m.sender
    let nonce ← .orFail acc (.unknownAddress m.sender)
    .rejectIf (m.nonce ≠ nonce) (.invalidSequence m.nonce nonce)
    .modify fun s => setSequence s m.sender (nonce + 1)
    incrementSequences ms

/-! ## Executing messages -/

/-- The caller's nonce after `Create`. -/
def create (o : Outcome) (sender : Address) (s : Sequences) : Sequences :=
  if o.createRejected then s
  else update s sender ((s sender).map (· + 1))

/-- The sequences `ApplyMessageWithConfig` commits.  A creation takes the nonce over from
the EVM: it is reset to the message's before `Create` and set to the next one after it.  A
call leaves the nonce of its sender alone. -/
def applyMessage (m : Msg) (o : Outcome) (s : Sequences) : Sequences :=
  let s :=
    if m.creation then
      let s := setSequence s m.sender m.nonce
      let s := create o m.sender s
      setSequence s m.sender (m.nonce + 1)
    else s
  fun a => if a ∈ o.opened then some ((s a).getD 0) else s a

/-- With hooks the message is executed in a cache, which is written when the EVM and the
hooks succeed; without hooks it is executed in place. -/
def Commits (k : Keeper) (o : Outcome) : Prop :=
  k.hooks → o.vmFailed = false ∧ o.hooksFail = false
deriving Decidable

/-- `ApplyTransaction`. -/
def applyTransaction (k : Keeper) (m : Msg) (o : Outcome) : Action Sequences String Unit :=
  match o.error with
  | some e => .fail e
  | none => .modify fun s => if Commits k o then applyMessage m o s else s

/-- The messages of a transaction, up to the first error. -/
def runMsgs (k : Keeper) : Tx → Action Sequences String Unit
  | [] => pure ()
  | (m, o) :: rest => do
    applyTransaction k m o
    runMsgs k rest

/-- A delivered transaction: the sequences it leaves, and whether it passed the ante
handler. -/
def deliverTx (k : Keeper) (tx : Tx) (s : Sequences) : Sequences × Bool :=
  match (incrementSequences (msgs tx)).run s with
  | (_, .error _) => (s, false)
  | (ante, .ok _) =>
    match (runMsgs k tx).run ante with
    | (s', .ok _) => (s', true)
    | (_, .error _) => (ante, true)

/-! ## Runs -/

/-- The stored sequences, and as a history variable the sender and nonce of every message
that passed the ante handler. -/
structure Config where
  sequences : Sequences
  delivered : List (Address × UInt64)

/-- What happens to the sequences. -/
inductive Label where
  | deliver (tx : Tx)
  /-- another module opens an account -/
  | openAccount (a : Address)

/-- One step; a transaction that the ante handler refuses is one, too. -/
def step (k : Keeper) (c : Config) : Label → Option Config
  | .deliver tx =>
    let (s, passed) := deliverTx k tx c.sequences
    some
      { sequences := s
        delivered :=
          if passed then c.delivered ++ (msgs tx).map fun m => (m.sender, m.nonce)
          else c.delivered }
  | .openAccount a =>
    some { c with sequences := update c.sequences a (some ((c.sequences a).getD 0)) }

def Config.start (s : Sequences) : Config := ⟨s, []⟩

/-! ## The last nonce of a sender -/

/-- The nonce of the last message of an account. -/
def lastNonce (ms : List Msg) (a : Address) : Option UInt64 :=
  ((ms.filter fun m => m.sender = a).getLast?).map Msg.nonce

/-- The sequences after messages that each set the sequence of their sender to the next
nonce. -/
def advance (s : Sequences) (ms : List Msg) : Sequences := fun a =>
  match lastNonce ms a with
  | some n => some (n + 1)
  | none => s a

theorem lastNonce_cons (m : Msg) (ms : List Msg) (a : Address) :
    lastNonce (m :: ms) a = (lastNonce ms a).or (if m.sender = a then some m.nonce else none) := by
  unfold lastNonce
  by_cases h : m.sender = a
  · rw [filter_cons_of_pos (by simpa using h), getLast?_cons, if_pos h]
    cases (ms.filter fun m => m.sender = a).getLast? <;> rfl
  · rw [filter_cons_of_neg (by simpa using h), if_neg h, Option.or_none]

variable {ms : List Msg} {a : Address} {m : Msg} {s s' : Sequences} {q n : UInt64} {k : Keeper}
  {tx : Tx} {c c' : Config}

theorem lastNonce_eq_none : lastNonce ms a = none ↔ ∀ m ∈ ms, m.sender ≠ a := by
  unfold lastNonce
  simp

theorem advance_nil (s : Sequences) : advance s [] = s := rfl

theorem advance_cons (s : Sequences) (m : Msg) (ms : List Msg) :
    advance s (m :: ms) = advance (setSequence s m.sender (m.nonce + 1)) ms := by
  funext a
  unfold advance
  rw [lastNonce_cons]
  cases lastNonce ms a with
  | some => rfl
  | none =>
    by_cases h : m.sender = a
    · subst h
      simp [setSequence]
    · simp [h, setSequence, update_of_ne (Ne.symm h)]

/-! ## What the ante handler leaves -/

/-- The transaction passes the ante handler. -/
def Admitted (s : Sequences) (ms : List Msg) : Prop :=
  ((incrementSequences ms).run s).2 = .ok ()
deriving Decidable

theorem incrementSequences_cons_ok (h : (incrementSequences (m :: ms)).run s = (s', .ok ())) :
    s m.sender = some m.nonce ∧
      (incrementSequences ms).run (setSequence s m.sender (m.nonce + 1)) = (s', .ok ()) := by
  rw [incrementSequences, run_gets_bind] at h
  obtain ⟨nonce, hstored, h⟩ := run_orFail_bind_ok.mp h
  obtain ⟨hnonce, h⟩ := rejectIf_bind_ok.mp h
  rw [run_modify_bind] at h
  obtain rfl : m.nonce = nonce := not_not.mp hnonce
  exact ⟨hstored, h⟩

theorem incrementSequences_ok (h : (incrementSequences ms).run s = (s', .ok ())) :
    s' = advance s ms := by
  induction ms generalizing s with
  | nil => exact (Prod.mk.inj h).1.symm
  | cons _ _ ih =>
    obtain ⟨-, hrest⟩ := incrementSequences_cons_ok h
    rw [advance_cons]
    exact ih hrest

/-- No message has the largest nonce, after which the sequence starts from zero again. -/
def NoWrap (ms : List Msg) : Prop :=
  ∀ m ∈ ms, m.nonce ≠ 0xffffffffffffffff
deriving Decidable

theorem toNat_succ_of_ne_max (h : n ≠ 0xffffffffffffffff) : (n + 1).toNat = n.toNat + 1 := by
  have hne : n.toNat ≠ 0xffffffffffffffff := fun heq => h (UInt64.toNat_inj.mp heq)
  have hlt := n.toNat_lt
  have hone : (1 : UInt64).toNat = 1 := rfl
  rw [UInt64.toNat_add, hone]
  omega

/-- An account that is there stays there, with at least the same sequence. -/
def Grows (s s' : Sequences) : Prop :=
  ∀ a q, s a = some q → ∃ q', s' a = some q' ∧ q.toNat ≤ q'.toNat

theorem Grows.refl : Grows s s := fun _ q h => ⟨q, h, le_refl _⟩

theorem Grows.trans {s'' : Sequences} (h₁ : Grows s s') (h₂ : Grows s' s'') : Grows s s'' := by
  intro a q hq
  obtain ⟨q', hq', hle⟩ := h₁ a q hq
  obtain ⟨q'', hq'', hle'⟩ := h₂ a q' hq'
  exact ⟨q'', hq'', hle.trans hle'⟩

theorem Grows.setSequence (hq : s a = some q) (hle : q.toNat ≤ n.toNat) :
    Grows s (setSequence s a n) := by
  intro x qx hqx
  by_cases hx : x = a
  · subst hx
    rw [hq, Option.some.injEq] at hqx
    subst hqx
    exact ⟨n, by simp [Nonces.setSequence], hle⟩
  · exact ⟨qx, by simp [Nonces.setSequence, update_of_ne hx, hqx], le_refl _⟩

theorem incrementSequences_fresh (hwrap : NoWrap ms)
    (h : (incrementSequences ms).run s = (s', .ok ())) :
    Grows s s' ∧ (∀ m ∈ ms, ∃ q, s m.sender = some q ∧ q.toNat ≤ m.nonce.toNat) ∧
      (∀ m ∈ ms, ∃ q, s' m.sender = some q ∧ m.nonce.toNat < q.toNat) ∧
      (ms.map fun m => (m.sender, m.nonce)).Nodup := by
  induction ms generalizing s with
  | nil =>
    obtain rfl : s = s' := (Prod.mk.inj h).1
    simp [Grows.refl]
  | cons m ms ih =>
    obtain ⟨hstored, hrest⟩ := incrementSequences_cons_ok h
    have hsucc := toNat_succ_of_ne_max (hwrap m mem_cons_self)
    obtain ⟨hgrows, hfrom, hbelow, hnodup⟩ :=
      ih (fun m' hm' => hwrap m' (mem_cons_of_mem m hm')) hrest
    have hfirst : Grows s (setSequence s m.sender (m.nonce + 1)) :=
      .setSequence hstored (by omega)
    -- a later message of the same sender starts from the incremented sequence
    have hlater : ∀ m' ∈ ms, m'.sender = m.sender → m.nonce.toNat < m'.nonce.toNat := by
      intro m' hm' hsender
      obtain ⟨q, hq, hle⟩ := hfrom m' hm'
      rw [hsender, setSequence, update_self, Option.some.injEq] at hq
      rw [← hq] at hle
      omega
    refine ⟨hfirst.trans hgrows, ?_, ?_, ?_⟩
    · intro m' hm'
      rcases mem_cons.mp hm' with rfl | hm'
      · exact ⟨m'.nonce, hstored, le_refl _⟩
      obtain ⟨q, hq, hle⟩ := hfrom m' hm'
      by_cases hsender : m'.sender = m.sender
      · exact ⟨m.nonce, hsender ▸ hstored, le_of_lt (hlater m' hm' hsender)⟩
      · exact ⟨q, by rwa [setSequence, update_of_ne hsender] at hq, hle⟩
    · intro m' hm'
      rcases mem_cons.mp hm' with rfl | hm'
      · obtain ⟨q, hq, _⟩ := hgrows m'.sender (m'.nonce + 1) (by simp [setSequence])
        exact ⟨q, hq, by omega⟩
      · exact hbelow m' hm'
    · rw [map_cons, nodup_cons]
      refine ⟨?_, hnodup⟩
      intro hmem
      obtain ⟨m', hm', heq⟩ := mem_map.mp hmem
      rw [Prod.mk.injEq] at heq
      have hlt := hlater m' hm' heq.1
      rw [heq.2] at hlt
      exact absurd hlt (lt_irrefl _)

/-! ## What the messages leave -/

/-- The contract creations of a transaction whose writes are kept. -/
def committedCreations (k : Keeper) (tx : Tx) : List Msg :=
  if tx.any (fun p => p.2.error.isSome) then []
  else msgs (tx.filter fun p => p.1.creation ∧ Commits k p.2)

theorem applyMessage_of_creation (o : Outcome) (hcreation : m.creation) (hq : s a = some q) :
    applyMessage m o s a = setSequence s m.sender (m.nonce + 1) a := by
  unfold applyMessage create
  by_cases ha : a = m.sender
  · subst ha
    simp [hcreation, setSequence]
  have hsame : ∀ n, setSequence s m.sender n a = some q := fun n => by
    rw [setSequence, update_of_ne ha, hq]
  split <;> split <;> simp [setSequence, update_of_ne ha, hq]

theorem applyMessage_of_call (o : Outcome) (hcall : m.creation = false) (hq : s a = some q) :
    applyMessage m o s a = some q := by
  unfold applyMessage
  simp [hcall, hq]

theorem applyTransaction_ok {o : Outcome} (h : (applyTransaction k m o).run s = (s', .ok ()))
    (hq : s a = some q) :
    s' a = if m.creation ∧ Commits k o then setSequence s m.sender (m.nonce + 1) a else some q := by
  unfold applyTransaction at h
  split at h
  · cases h
  rw [run_modify, Prod.mk.injEq] at h
  rw [← h.1]
  by_cases hcommits : Commits k o
  · rw [if_pos hcommits]
    by_cases hcreation : m.creation
    · rw [if_pos ⟨hcreation, hcommits⟩, applyMessage_of_creation o hcreation hq]
    · rw [if_neg fun h => hcreation h.1]
      exact applyMessage_of_call o (by simpa using hcreation) hq
  · rw [if_neg hcommits, if_neg fun h => hcommits h.2, hq]

theorem advance_congr (h : s' a = s a) : advance s' ms a = advance s ms a := by
  unfold advance
  rw [h]

theorem runMsgs_advance (h : (runMsgs k tx).run s = (s', .ok ())) (hq : s a = some q) :
    s' a = advance s (msgs (tx.filter fun p => p.1.creation ∧ Commits k p.2)) a := by
  induction tx generalizing s q with
  | nil =>
    obtain rfl : s = s' := (Prod.mk.inj h).1
    rfl
  | cons p _ ih =>
    obtain ⟨m, o⟩ := p
    rw [runMsgs] at h
    obtain ⟨t, ⟨⟩, hfirst, hrest⟩ := run_bind_ok.mp h
    have hone := applyTransaction_ok hfirst hq
    by_cases hkept : m.creation ∧ Commits k o
    · rw [if_pos hkept] at hone
      obtain ⟨q', hq'⟩ : ∃ q', t a = some q' := by
        rw [hone, setSequence, update_apply]
        split
        · exact ⟨_, rfl⟩
        · exact ⟨q, hq⟩
      rw [ih hrest hq', filter_cons_of_pos (by simpa using hkept)]
      exact (advance_congr hone).trans (congrFun (advance_cons s m _).symm a)
    · rw [if_neg hkept] at hone
      rw [ih hrest hone, filter_cons_of_neg (by simpa using hkept)]
      exact advance_congr (hone.trans hq.symm)

theorem error_of_runMsgs_ok (h : (runMsgs k tx).run s = (s', .ok ())) :
    tx.any (fun p => p.2.error.isSome) = false := by
  induction tx generalizing s with
  | nil => rfl
  | cons p _ ih =>
    obtain ⟨_, o⟩ := p
    rw [runMsgs] at h
    obtain ⟨_, ⟨⟩, hfirst, hrest⟩ := run_bind_ok.mp h
    have herror : o.error = none := by
      unfold applyTransaction at hfirst
      split at hfirst
      · cases hfirst
      · assumption
    rw [any_cons, ih hrest, herror]
    rfl

theorem error_of_runMsgs_error {e : String} (h : (runMsgs k tx).run s = (s', .error e)) :
    tx.any (fun p => p.2.error.isSome) := by
  induction tx generalizing s with
  | nil => cases h
  | cons p _ ih =>
    obtain ⟨m, o⟩ := p
    rw [runMsgs] at h
    cases herror : o.error with
    | some => simp [herror]
    | none =>
      have hfirst : (applyTransaction k m o).run s =
          (if Commits k o then applyMessage m o s else s, .ok ()) := by
        rw [applyTransaction, herror]
        rfl
      rw [run_bind_of_ok hfirst] at h
      simp [herror, ih h]

/-! ## A delivered transaction -/

theorem deliverTx_admitted (h : deliverTx k tx s = (s', true)) :
    (incrementSequences (msgs tx)).run s = (advance s (msgs tx), .ok ()) ∧
      ∀ a q, advance s (msgs tx) a = some q →
        s' a = advance (advance s (msgs tx)) (committedCreations k tx) a := by
  unfold deliverTx at h
  split at h
  · simp at h
  rename_i ante u hante
  obtain rfl := incrementSequences_ok hante
  refine ⟨hante, ?_⟩
  intro _ _ hq
  split at h
  · rename_i s₁ u₁ hrun
    rw [Prod.mk.injEq] at h
    rw [← h.1, runMsgs_advance hrun hq, committedCreations, error_of_runMsgs_ok hrun]
    rfl
  · rename_i s₁ e hrun
    rw [Prod.mk.injEq] at h
    rw [← h.1, committedCreations, if_pos (error_of_runMsgs_error hrun), advance_nil]

theorem deliverTx_rejected (h : deliverTx k tx s = (s', false)) : s' = s := by
  unfold deliverTx at h
  split at h
  · exact (Prod.mk.inj h).1.symm
  · split at h <;> simp at h

/-- The condition on a transaction: a sender with a creation that is kept has no message
after its last one. -/
def InOrder (k : Keeper) (tx : Tx) : Prop :=
  ∀ m ∈ committedCreations k tx,
    lastNonce (committedCreations k tx) m.sender = lastNonce (msgs tx) m.sender
deriving Decidable

theorem mem_msgs_of_committed (h : m ∈ committedCreations k tx) : m ∈ msgs tx := by
  unfold committedCreations at h
  split at h
  · exact absurd h not_mem_nil
  · obtain ⟨_, hp, rfl⟩ := mem_map.mp h
    exact mem_map_of_mem (mem_filter.mp hp).1

theorem lastNonce_isSome (h : m ∈ ms) : ∃ n, lastNonce ms m.sender = some n := by
  rw [← Option.ne_none_iff_exists']
  intro hnone
  exact lastNonce_eq_none.mp hnone m h rfl

theorem InOrder.advance_eq (h : InOrder k tx) (s : Sequences) (a : Address) :
    advance (advance s (msgs tx)) (committedCreations k tx) a = advance s (msgs tx) a := by
  cases hcreated : lastNonce (committedCreations k tx) a with
  | none =>
    unfold advance
    rw [hcreated]
  | some =>
    have hsender : ∃ m ∈ committedCreations k tx, m.sender = a := by
      by_contra hnot
      push Not at hnot
      rw [lastNonce_eq_none.mpr hnot] at hcreated
      cases hcreated
    obtain ⟨m, hm, rfl⟩ := hsender
    have hlast := h m hm
    unfold advance
    rw [hcreated, ← hlast, hcreated]

theorem deliverTx_next_iff (h : deliverTx k tx s = (s', true)) :
    (∀ m ∈ msgs tx, s' m.sender = (lastNonce (msgs tx) m.sender).map (· + 1)) ↔ InOrder k tx := by
  obtain ⟨-, hleaves⟩ := deliverTx_admitted h
  have hante : ∀ m ∈ msgs tx, ∃ n, lastNonce (msgs tx) m.sender = some n ∧
      advance s (msgs tx) m.sender = some (n + 1) := by
    intro m hm
    obtain ⟨n, hn⟩ := lastNonce_isSome hm
    exact ⟨n, hn, by rw [advance, hn]⟩
  constructor
  · intro hnext m hm
    obtain ⟨n, hn, hadvance⟩ := hante m (mem_msgs_of_committed hm)
    obtain ⟨_, hc⟩ := lastNonce_isSome hm
    have hfinal := hleaves m.sender _ hadvance
    rw [hnext m (mem_msgs_of_committed hm), hn, advance, hc, Option.map_some,
      Option.some.injEq] at hfinal
    rw [hc, hn, add_right_cancel hfinal]
  · intro horder m hm
    obtain ⟨_, hn, hadvance⟩ := hante m hm
    rw [hleaves m.sender _ hadvance, horder.advance_eq, hadvance, hn]
    rfl

/-! ## Runs in order -/

/-- The guard on a run: every admitted transaction is in order and far from the end of the
nonces. -/
def Orderly (k : Keeper) (c : Config) : Label → Prop
  | .deliver tx => Admitted c.sequences (msgs tx) → InOrder k tx ∧ NoWrap (msgs tx)
  | .openAccount _ => True

instance (k : Keeper) (c : Config) (l : Label) : Decidable (Orderly k c l) := by
  unfold Orderly
  split <;> infer_instance

/-- Every delivered nonce is below the stored sequence of its sender, and no sender has used
one twice. -/
structure Spent (c : Config) : Prop where
  below : ∀ p ∈ c.delivered, ∃ q, c.sequences p.1 = some q ∧ p.2.toNat < q.toNat
  nodup : c.delivered.Nodup

/-- One step in order: the sequences grow and nothing is spent twice. -/
theorem Spent.step {l : Label} (hc : Spent c) (hok : Orderly k c l) (h : step k c l = some c') :
    Grows c.sequences c'.sequences ∧ Spent c' := by
  cases l with
  | openAccount a =>
    cases h
    have hgrows : Grows c.sequences
        (update c.sequences a (some ((c.sequences a).getD 0))) := by
      intro x q hq
      refine ⟨q, ?_, le_refl _⟩
      by_cases hx : x = a
      · subst hx
        rw [update_self, hq]
        rfl
      · rw [update_of_ne hx, hq]
    refine ⟨hgrows, ?_, hc.nodup⟩
    intro p hp
    obtain ⟨q, hq, hlt⟩ := hc.below p hp
    obtain ⟨q', hq', hle⟩ := hgrows p.1 q hq
    exact ⟨q', hq', by omega⟩
  | deliver tx =>
    simp only [Nonces.step, Option.some.injEq] at h
    subst h
    rcases hdeliver : deliverTx k tx c.sequences with ⟨s', passed⟩
    cases passed with
    | false =>
      obtain rfl := deliverTx_rejected hdeliver
      exact ⟨.refl, by simpa using hc⟩
    | true =>
      obtain ⟨hante, hleaves⟩ := deliverTx_admitted hdeliver
      obtain ⟨horder, hwrap⟩ := hok (by rw [Admitted, hante])
      obtain ⟨hgrows, hfrom, hbelow, hnodup⟩ := incrementSequences_fresh hwrap hante
      have hkept : ∀ a q, advance c.sequences (msgs tx) a = some q → s' a = some q := by
        intro a q hq
        rw [hleaves a q hq, horder.advance_eq, hq]
      have hgrows' : Grows c.sequences s' := by
        intro a q hq
        obtain ⟨q', hq', hle⟩ := hgrows a q hq
        exact ⟨q', hkept a q' hq', hle⟩
      refine ⟨hgrows', ?_, ?_⟩
      · intro p hp
        simp only [if_true, mem_append, mem_map] at hp
        rcases hp with hp | ⟨m, hm, rfl⟩
        · obtain ⟨q, hq, hlt⟩ := hc.below p hp
          obtain ⟨q', hq', hle⟩ := hgrows' p.1 q hq
          exact ⟨q', hq', by omega⟩
        · obtain ⟨q, hq, hlt⟩ := hbelow m hm
          exact ⟨q, hkept m.sender q hq, hlt⟩
      · simp only [if_true]
        refine hc.nodup.append hnodup ?_
        -- an old nonce is below the sequence the new ones start from
        intro _ hold hnew
        obtain ⟨m, hm, rfl⟩ := mem_map.mp hnew
        obtain ⟨_, hq, hlt⟩ := hc.below _ hold
        obtain ⟨_, hq', _⟩ := hfrom m hm
        rw [hq, Option.some.injEq] at hq'
        subst hq'
        dsimp only at hlt
        omega

theorem spent_of_path (hc : Spent c) (h : Path (step k) (Orderly k) c c') :
    Grows c.sequences c'.sequences ∧ Spent c' := by
  refine Path.invariant (I := fun t => Grows c.sequences t.sequences ∧ Spent t) ?_
    ⟨Grows.refl, hc⟩ h
  intro _ _ _ ht hok hl
  obtain ⟨hgrows, hspent⟩ := ht.2.step hok hl
  exact ⟨ht.1.trans hgrows, hspent⟩

/-- After each admitted transaction the sequence of every sender is the nonce of its last
message plus one, exactly when the transaction is in order; and in every run whose
admitted transactions are in order no two messages have the same sender and nonce, and no
sequence ever decreases. -/
theorem replayProtected_of_path (k : Keeper) (s : Sequences) :
    (∀ tx t t', deliverTx k tx t = (t', true) →
      ((∀ m ∈ msgs tx, t' m.sender = (lastNonce (msgs tx) m.sender).map (· + 1)) ↔ InOrder k tx)) ∧
    ∀ c, Path (step k) (Orderly k) (.start s) c → c.delivered.Nodup ∧
        ∀ c', Path (step k) (Orderly k) c c' → Grows c.sequences c'.sequences := by
  refine ⟨fun tx t t' h => deliverTx_next_iff h, ?_⟩
  intro _ hpath
  have hstart : Spent (.start s) := ⟨fun p hp => absurd hp not_mem_nil, nodup_nil⟩
  obtain ⟨-, hspent⟩ := spent_of_path hstart hpath
  exact ⟨hspent.nodup, fun c' hpath' => (spent_of_path hspent hpath').1⟩

/-! ## A creation followed by a call -/

namespace Replay

def keeper : Keeper := ⟨true⟩
def alice : Address := .ofNat 1
def start : Config := .start fun a => if a = alice then some 5 else none
def success : Outcome := ⟨none, false, false, false, []⟩
def creation (nonce : UInt64) : Msg × Outcome := (⟨alice, nonce, true⟩, success)
def call (nonce : UInt64) : Msg × Outcome := (⟨alice, nonce, false⟩, success)

end Replay

open Replay in
/-- The creation writes its own nonce plus one over the sequence the ante handler had set
for the call after it: the same call is admitted and executed again. -/
theorem creationThenCall_replayed : ∃ c, Path (step keeper) (fun _ _ => True) start c ∧
      c.delivered = [(alice, 5), (alice, 6), (alice, 6)] ∧ ¬ c.delivered.Nodup := by
  have hrun : (runLabels (guardedStep (step keeper) fun _ _ => True) start
      [.deliver [creation 5, call 6], .deliver [call 6]]).map Config.delivered =
        some [(alice, 5), (alice, 6), (alice, 6)] := by
    decide +kernel
  obtain ⟨c, hc, hdelivered⟩ := Option.map_eq_some_iff.mp hrun
  refine ⟨c, path_of_runLabels hc, hdelivered, ?_⟩
  rw [hdelivered]
  decide

open Replay in
/-- With the creation last, the call cannot be repeated. -/
theorem callThenCreation_spent : ∃ c, Path (step keeper) (Orderly keeper) start c ∧
      c.delivered = [(alice, 5), (alice, 6)] ∧ c.sequences alice = some 7 ∧ c.delivered.Nodup := by
  have hrun : (runLabels (guardedStep (step keeper) (Orderly keeper)) start
      [.deliver [call 5, creation 6], .deliver [call 5], .deliver [creation 6]]).map
        (fun c => (c.delivered, c.sequences alice)) = some ([(alice, 5), (alice, 6)], some 7) := by
    decide +kernel
  obtain ⟨c, hc, hv⟩ := Option.map_eq_some_iff.mp hrun
  rw [Prod.mk.injEq] at hv
  have hpath := path_of_runLabels hc
  exact ⟨c, hpath, hv.1, hv.2, ((replayProtected_of_path keeper _).2 c hpath).1⟩

end HyperPax.Evm.Nonces
