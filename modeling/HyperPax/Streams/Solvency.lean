/-
  Streams/Solvency.lean --- the module account holds what the streams are owed.

  All streams of one token share one pooled balance.  The invariant ties that
  balance to the records: for every token the module holds exactly the sum of
  `cap - settled` over the live streams in it.  It fails when the keeper believes in a
  transfer that was not made (an ERC-20 that answers `false`), and when a
  close pays the payee but cannot refund the payer.
-/
import HyperPax.Streams.Keeper
import HyperPax.Lib.History
import HyperPax.Lib.Transition

set_option autoImplicit false

namespace HyperPax.Streams

open Lib Action KVStore State Address List Option

/-! ## Runs -/

/-- A call of the keeper by some account. -/
inductive Op where
  | openStream (payer payee token : Address) (ratePerSecond : Int) (startTime stopTime : UInt64)
      (cap : Int)
  | settle (streamID : UInt64)
  | close (streamID : UInt64) (caller : Address)
  | updateRate (streamID : UInt64) (caller : Address) (newRate : Int)

/-- What happened to a stream.  The history is a history variable of the model. -/
inductive Event where
  | opened (id : UInt64) (cap : Int)
  | paid (id : UInt64) (amount : Int)
  | closed (id : UInt64) (refund : Int)
deriving DecidableEq

/-- Perform a call; the result lists what it did. -/
def execOp (k : Keeper) (env : Env) (now : UInt64) : Op → Action State Err (List Event)
  | .openStream payer payee token ratePerSecond startTime stopTime cap => do
    let id ← openStream k env now payer payee token ratePerSecond startTime stopTime cap
    return [.opened id cap]
  | .settle streamID => do
    let payout ← settle k env now streamID
    return [.paid streamID payout]
  | .close streamID caller => do
    let (payout, refund) ← close k env now streamID caller.bytes
    return [.paid streamID payout, .closed streamID refund]
  | .updateRate streamID caller newRate => do
    let payout ← updateRate k env now streamID caller.bytes newRate
    return [.paid streamID payout]

/-- The block time, the state, and the history. -/
structure Config where
  now : UInt64
  state : State
  history : List Event

/-- No streams, no history; the module account holds nothing of any token. -/
def Config.start (k : Keeper) (now : UInt64) (assets : Address → Ledger) : Config :=
  ⟨now, ⟨∅, fun token => Function.update (assets token) k.moduleAccount 0⟩, []⟩

/-- What happens to the module. -/
inductive Label where
  | setParams (p : Params)
  | op (env : Env) (o : Op)
  | advance (now : UInt64)

/-- A failed call keeps what it wrote, and no event. -/
def Config.perform (k : Keeper) (env : Env) (o : Op) (c : Config) : Config :=
  match (execOp k env c.now o).run c.state with
  | (s, .ok es) => ⟨c.now, s, c.history ++ es⟩
  | (s, .error _) => ⟨c.now, s, c.history⟩

/-- One step of the chain. -/
def step (k : Keeper) (c : Config) : Label → Option Config
  | .setParams p =>
    match setParams c.state.store p with
    | .ok store => some { c with state := { c.state with store := store } }
    | .error _ => none
  | .op env o => some (c.perform k env o)
  | .advance now => if c.now ≤ now then some { c with now := now } else none

variable {k : Keeper} {o : Op} {c : Config} {s : State}

theorem perform_of_ok {env : Env} {es : List Event}
    (h : (execOp k env c.now o).run c.state = (s, .ok es)) :
    c.perform k env o = ⟨c.now, s, c.history ++ es⟩ := by
  rw [Config.perform, h]

theorem perform_of_error {env : Env} {e : Err}
    (h : (execOp k env c.now o).run c.state = (s, .error e)) :
    c.perform k env o = ⟨c.now, s, c.history⟩ := by
  rw [Config.perform, h]

/-! ## What is owed -/

/-- What a stream is still owed in one token. -/
def owedIn (token : Address) (s : Stream) : Nat :=
  if s.token = token.bytes then (unspentCap s).toNat else 0

/-- The sum of `cap - settled` over the live streams in one token. -/
def outstanding (token : Address) (store : Store) : Nat :=
  ((getAllStreams store).map (owedIn token)).sum

/-- What an entry of the store contributes to that sum. -/
def entryOwed (token : Address) (key : Key) (v : Value) : Nat :=
  if streamByIDKeyPrefix <+: key then v.stream?.elim 0 (owedIn token) else 0

theorem outstanding_eq_weight (token : Address) (store : Store) :
    outstanding token store = store.weight (entryOwed token) :=
  sum_scan_filterMap store streamByIDKeyPrefix Value.stream? (owedIn token)

section

variable (token : Address) (store : Store)

theorem entryOwed_payerKey (a : List UInt8) (id : UInt64) (v : Value) :
    entryOwed token (payerStreamKey a id) v = 0 := by
  simp [entryOwed, streamByIDKeyPrefix, payerStreamKey]

theorem entryOwed_payeeKey (a : List UInt8) (id : UInt64) (v : Value) :
    entryOwed token (payeeStreamKey a id) v = 0 := by
  simp [entryOwed, streamByIDKeyPrefix, payeeStreamKey]

theorem elim_entryOwed (id : UInt64) :
    (store[streamByIDKey id]?).elim 0 (entryOwed token (streamByIDKey id)) =
      (getStream store id).elim 0 (owedIn token) := by
  unfold getStream
  cases store[streamByIDKey id]? with
  | none => rfl
  | some => simp [entryOwed, streamByIDKeyPrefix, streamByIDKey]

theorem outstanding_insert_of_not_index {key : Key} (h : ¬ streamByIDKeyPrefix <+: key)
    (v : Value) : outstanding token (store.insert key v) = outstanding token store := by
  rw [outstanding_eq_weight, outstanding_eq_weight]
  exact weight_insert_of_zero (fun _ => if_neg h) _ _

theorem outstanding_setStream (s : Stream) :
    outstanding token (setStream store s) + (getStream store s.id).elim 0 (owedIn token) =
      outstanding token store + owedIn token s := by
  have herase := weight_erase_add (entryOwed token) store (streamByIDKey s.id)
  have hentry : entryOwed token (streamByIDKey s.id) (.stream s) = owedIn token s := by
    simp [entryOwed, streamByIDKeyPrefix, streamByIDKey]
  rw [elim_entryOwed] at herase
  rw [outstanding_eq_weight, outstanding_eq_weight, setStream,
    weight_insert_of_zero (entryOwed_payeeKey token _ _),
    weight_insert_of_zero (entryOwed_payerKey token _ _), weight_insert, hentry]
  omega

theorem outstanding_deleteStream (s : Stream) :
    outstanding token (deleteStream store s) + (getStream store s.id).elim 0 (owedIn token) =
      outstanding token store := by
  have herase := weight_erase_add (entryOwed token) store (streamByIDKey s.id)
  rw [elim_entryOwed] at herase
  rw [outstanding_eq_weight, outstanding_eq_weight, deleteStream,
    weight_erase_of_zero (entryOwed_payeeKey token _ _),
    weight_erase_of_zero (entryOwed_payerKey token _ _)]
  exact herase

end

/-! ## The condition on a step -/

/-- The counter has wrapped around: the next id handed out is one again. -/
def CounterWrapped (store : Store) : Prop :=
  storedCounter store = some 0
deriving Decidable

/-- The payout of a stream is not silently left unmade. -/
def PayoutHonest (k : Keeper) (env : Env) (now : UInt64) (s : Stream) : Prop :=
  ¬ Silent env.first s.token k.moduleAccount (.ofBytes s.payee) (streamAccrued s now)
deriving Decidable

/-- The refund at the end of a stream is not silently left unmade and, if a payout
comes before it, is not declined either. -/
def RefundHonest (k : Keeper) (env : Env) (now : UInt64) (s : Stream) : Prop :=
  let refund := unspentCap (s.addSettled (streamAccrued s now))
  ¬ Silent env.second s.token k.moduleAccount (.ofBytes s.payer) refund ∧
    (0 < streamAccrued s now → Accepts env.second s.token k.moduleAccount (.ofBytes s.payer) refund)
deriving Decidable

/-- The condition under which a call keeps the pool balanced. -/
def Honest (k : Keeper) (env : Env) (now : UInt64) (store : Store) : Op → Prop
  | .openStream payer payee token _ _ _ cap =>
    payer ≠ k.moduleAccount ∧ payee ≠ k.moduleAccount ∧ ¬ CounterWrapped store ∧
      ¬ Silent env.first token.bytes payer k.moduleAccount cap
  | .settle streamID => ∀ s ∈ getStream store streamID, PayoutHonest k env now s
  | .close streamID _ =>
    ∀ s ∈ getStream store streamID, PayoutHonest k env now s ∧ RefundHonest k env now s
  | .updateRate streamID _ _ => ∀ s ∈ getStream store streamID, PayoutHonest k env now s

instance (k : Keeper) (env : Env) (now : UInt64) (store : Store) (o : Op) :
    Decidable (Honest k env now store o) := by
  unfold Honest
  split <;> infer_instance

/-- The same as a guard on the steps of a run. -/
def HonestStep (k : Keeper) : Config → Label → Prop
  | c, .op env o => Honest k env c.now c.state.store o
  | _, _ => True

instance (k : Keeper) (c : Config) (l : Label) : Decidable (HonestStep k c l) := by
  unfold HonestStep
  split <;> infer_instance

/-! ## Movements and the module account -/

section

variable {k : Keeper} {ans : Answers} {token : Address} {amount : Int} {s s' : State}

theorem Moved.out {dst : Address} (h : Moved ans token.bytes k.moduleAccount dst amount s s')
    (hmade : ¬ Silent ans token.bytes k.moduleAccount dst amount) (hdst : dst ≠ k.moduleAccount)
    (t : Address) : s'.assets t k.moduleAccount + (if token = t then amount.toNat else 0) =
      s.assets t k.moduleAccount := by
  obtain ⟨hsilent, -⟩ | ⟨-, hle, rfl⟩ := h
  · exact absurd hsilent hmade
  rw [ofBytes_bytes] at hle ⊢
  by_cases ht : token = t
  · subst ht
    rw [pay_assets_same, Ledger.transfer_src _ _ hdst.symm, if_pos rfl]
    omega
  · rw [pay_assets_other _ _ _ _ (Ne.symm ht), if_neg ht, Nat.add_zero]

theorem Moved.into {src : Address} (h : Moved ans token.bytes src k.moduleAccount amount s s')
    (hmade : ¬ Silent ans token.bytes src k.moduleAccount amount) (hsrc : src ≠ k.moduleAccount)
    (t : Address) : s'.assets t k.moduleAccount =
      s.assets t k.moduleAccount + (if token = t then amount.toNat else 0) := by
  obtain ⟨hsilent, -⟩ | ⟨-, -, rfl⟩ := h
  · exact absurd hsilent hmade
  rw [ofBytes_bytes]
  by_cases ht : token = t
  · subst ht
    rw [pay_assets_same, Ledger.transfer_dst _ _ hsrc, if_pos rfl]
  · rw [pay_assets_other _ _ _ _ (Ne.symm ht), if_neg ht, Nat.add_zero]

end

/-! ## The invariant -/

/-- The stream an event is about. -/
def Event.id : Event → UInt64
  | .opened id _ => id
  | .paid id _ => id
  | .closed id _ => id

/-- What an event paid to the payee of a stream. -/
def Event.paidOn (id : UInt64) : Event → Int
  | .paid i amount => if i = id then amount else 0
  | _ => 0

/-- All that was ever paid to the payee of a stream. -/
def totalPaid (id : UInt64) (H : List Event) : Int :=
  (H.map (Event.paidOn id)).sum

theorem totalPaid_append (id : UInt64) (H es : List Event) :
    totalPaid id (H ++ es) = totalPaid id H + totalPaid id es := by
  simp [totalPaid]

variable {H : List Event}

theorem totalPaid_eq_zero {id : UInt64} (h : ∀ e ∈ H, e.id ≠ id) : totalPaid id H = 0 := by
  refine sum_eq_zero ?_
  intro _ hn
  obtain ⟨e, he, rfl⟩ := mem_map.mp hn
  cases e with
  | paid => exact if_neg (h _ he)
  | _ => rfl

theorem totalPaid_paid (id : UInt64) (amount : Int) : totalPaid id [.paid id amount] = amount := by
  simp [totalPaid, Event.paidOn]

/-- When a stream is closed, what its payee was paid and what its payer is refunded
make up its cap. -/
def ClosedSquare (H : List Event) : Prop :=
  Chronological (fun past e => ∀ id refund, e = .closed id refund →
    ∃ cap, .opened id cap ∈ past ∧ totalPaid id past + refund = cap) H

/-- A live stream: its parties are not the module account, it has not been paid more
than its cap, and its record agrees with the history. -/
structure Sound (k : Keeper) (H : List Event) (s : Stream) : Prop where
  token : ∃ t : Address, s.token = t.bytes
  payer : .ofBytes s.payer ≠ k.moduleAccount
  payee : .ofBytes s.payee ≠ k.moduleAccount
  settled_le : parseAmount s.settled ≤ parseAmount s.cap
  opened : .opened s.id (parseAmount s.cap) ∈ H
  paid : totalPaid s.id H = parseAmount s.settled

/-- The ids of stored streams and of past events. -/
def UsedId (store : Store) (H : List Event) (id : UInt64) : Prop :=
  (∃ e ∈ H, e.id = id) ∨ ∃ s, getStream store id = some s

/-- What every step keeps. -/
structure Balanced (k : Keeper) (s : State) (H : List Event) : Prop where
  record_id : ∀ id st, getStream s.store id = some st → st.id = id
  sound : ∀ id st, getStream s.store id = some st → Sound k H st
  pool : ∀ t, s.assets t k.moduleAccount = outstanding t s.store
  ids : IdsBelow (storedCounter s.store) (UsedId s.store H)
  square : ClosedSquare H

theorem Sound.append {es : List Event} {s : Stream} (h : Sound k H s)
    (hes : ∀ e ∈ es, e.id ≠ s.id) : Sound k (H ++ es) s where
  token := h.token
  payer := h.payer
  payee := h.payee
  settled_le := h.settled_le
  opened := mem_append_left _ h.opened
  paid := by rw [totalPaid_append, totalPaid_eq_zero hes, h.paid, add_zero]

theorem owedIn_of_token {t token : Address} {s : Stream} (h : s.token = token.bytes) :
    owedIn t s = if token = t then (unspentCap s).toNat else 0 := by
  unfold owedIn
  rw [h]
  by_cases ht : token = t
  · rw [if_pos ht, if_pos (by rw [ht])]
  · rw [if_neg ht, if_neg (fun he => ht (Address.ext he))]

namespace Balanced

variable {k : Keeper} {env : Env} {ans : Answers} {s s' : State} {H : List Event}

theorem start (k : Keeper) (now : UInt64) (assets : Address → Ledger) :
    Balanced k (Config.start k now assets).state [] where
  record_id id st h := by simp [Config.start, getStream] at h
  sound id st h := by simp [Config.start, getStream] at h
  pool t := by simp [Config.start, outstanding, getAllStreams]
  ids := .inr fun id hid => by
    rcases hid with ⟨_, he, -⟩ | ⟨_, hst⟩
    · simp at he
    · simp [Config.start, getStream] at hst
  square := Chronological.nil

theorem usedId_of_replaced {store : Store} {id id' : UInt64} {new : Option Stream} {es : List Event}
    (hget : ∀ id', getStream store id' = if id = id' then new else getStream s.store id')
    (hevents : ∀ e ∈ es, e.id = id) (h : UsedId store (H ++ es) id') :
    id' = id ∨ UsedId s.store H id' := by
  rcases h with ⟨e, he, rfl⟩ | ⟨st, hst⟩
  · cases mem_append.mp he with
    | inl hold => exact .inr (.inl ⟨e, hold, rfl⟩)
    | inr hnew => exact .inl (hevents e hnew)
  rw [hget] at hst
  split at hst
  · rename_i hsame
    exact .inl hsame.symm
  · exact .inr (.inr ⟨st, hst⟩)

variable (hb : Balanced k s H)

include hb

theorem replace {u : State} {id : UInt64} {new : Option Stream} {es : List Event}
    (hget : ∀ id', getStream u.store id' = if id = id' then new else getStream s.store id')
    (hevents : ∀ e ∈ es, e.id = id) (hid : ∀ st ∈ new, st.id = id)
    (hsound : ∀ st ∈ new, Sound k (H ++ es) st)
    (hpool : ∀ t, u.assets t k.moduleAccount = outstanding t u.store)
    (hids : IdsBelow (storedCounter u.store) (fun id' => id' = id ∨ UsedId s.store H id'))
    (hsquare : ClosedSquare (H ++ es)) : Balanced k u (H ++ es) where
  record_id id' st h := by
    rw [hget] at h
    split at h
    · rename_i hsame
      exact (hid st h).trans hsame
    · exact hb.record_id id' st h
  sound id' st h := by
    rw [hget] at h
    split at h
    · exact hsound st h
    rename_i hne
    refine (hb.sound id' st h).append ?_
    intro e he
    rw [hevents e he, hb.record_id id' st h]
    exact hne
  pool := hpool
  ids := hids.mono fun _ h => usedId_of_replaced hget hevents h
  square := hsquare

theorem ids_of_stored {id : UInt64} {st : Stream} (hget : getStream s.store id = some st) :
    IdsBelow (storedCounter s.store) (fun id' => id' = id ∨ UsedId s.store H id') := by
  refine hb.ids.mono ?_
  rintro id' (rfl | hused)
  · exact .inr ⟨st, hget⟩
  · exact hused

theorem square_paid (id : UInt64) (amount : Int) : ClosedSquare (H ++ [.paid id amount]) :=
  .append hb.square fun _ _ he => by cases he

section

variable {id : UInt64} {st : Stream} (hget : getStream s.store id = some st)

include hget

theorem payout {st' : Stream} {amount : Int}
    (hmoved : Moved ans st.token k.moduleAccount (.ofBytes st.payee) amount s s')
    (hmade : ¬ Silent ans st.token k.moduleAccount (.ofBytes st.payee) amount)
    (hid : st'.id = st.id) (htoken : st'.token = st.token) (hpayer : st'.payer = st.payer)
    (hpayee : st'.payee = st.payee) (hcap : st'.cap = st.cap) (hnonneg : 0 ≤ amount)
    (hsettled : parseAmount st'.settled = parseAmount st.settled + amount)
    (hle : parseAmount st.settled + amount ≤ parseAmount st.cap) :
    Balanced k (s'.withStore fun store => setStream store st') (H ++ [.paid id amount]) := by
  have hsound := hb.sound id st hget
  have hstid := hb.record_id id st hget
  obtain ⟨token, ht⟩ := hsound.token
  have hstore : s'.store = s.store := hmoved.store
  have hle' : parseAmount st'.settled ≤ parseAmount st'.cap := by
    rw [hsettled, hcap]
    exact hle
  have hget' : ∀ id', getStream (s'.withStore fun store => setStream store st').store id' =
      if id = id' then some st' else getStream s.store id' := by
    intro _
    rw [withStore_store, hstore, getStream_setStream, hid, hstid]
  refine hb.replace hget' ?_ ?_ ?_ ?_ ?_ (hb.square_paid id amount)
  · intro _ he
    rw [mem_singleton.mp he]
    rfl
  · intro st'' hst''
    cases hst''
    exact hid.trans hstid
  · intro _ hst''
    cases hst''
    refine ⟨⟨token, htoken.trans ht⟩, ?_, ?_, hle', ?_, ?_⟩
    · rw [hpayer]
      exact hsound.payer
    · rw [hpayee]
      exact hsound.payee
    · rw [hid, hcap]
      exact mem_append_left _ hsound.opened
    · rw [hid, totalPaid_append, hsound.paid, hstid, totalPaid_paid, hsettled]
  · intro t
    have hold : (getStream s.store st'.id).elim 0 (owedIn t) = owedIn t st := by
      rw [hid, hstid, hget]
      rfl
    have hset := outstanding_setStream t s.store st'
    have hpool := hb.pool t
    rw [ht] at hmoved hmade
    have hout := hmoved.out hmade hsound.payee t
    rw [withStore_assets, withStore_store, hstore]
    rw [hold, owedIn_of_token ht, owedIn_of_token (htoken.trans ht), unspentCap_eq hle',
      unspentCap_eq hsound.settled_le, hsettled, hcap] at hset
    split at hset
    · rename_i hsame
      rw [if_pos hsame] at hout
      omega
    · rename_i hne
      rw [if_neg hne] at hout
      omega
  · rw [withStore_store, hstore, storedCounter_setStream]
    exact hb.ids_of_stored hget

theorem payNothing : Balanced k s (H ++ [.paid id 0]) := by
  have hget' : ∀ id', getStream s.store id' =
      if id = id' then some st else getStream s.store id' := by
    intro _
    split
    · rename_i hsame
      rw [← hsame, hget]
    · rfl
  refine hb.replace hget' ?_ ?_ ?_ hb.pool (hb.ids_of_stored hget) (hb.square_paid id 0)
  · intro _ he
    rw [mem_singleton.mp he]
    rfl
  · intro st' hst'
    cases hst'
    exact hb.record_id id st hget
  intro _ hst'
  cases hst'
  have hsound := hb.sound id st hget
  refine ⟨hsound.token, hsound.payer, hsound.payee, hsound.settled_le,
    mem_append_left _ hsound.opened, ?_⟩
  rw [hb.record_id id st hget, totalPaid_append, totalPaid_paid, add_zero,
    ← hb.record_id id st hget, hsound.paid]

end

/-- A new stream brings its cap into the pool. -/
theorem openStream {payer payee token : Address} {rate cap : Int} (startTime stopTime : UInt64)
    (hpayer : payer ≠ k.moduleAccount) (hpayee : payee ≠ k.moduleAccount)
    (hwrap : ¬ CounterWrapped s.store) (hcap : 0 < cap)
    (hmoved : Moved ans token.bytes payer k.moduleAccount cap s s')
    (hmade : ¬ Silent ans token.bytes payer k.moduleAccount cap) :
    Balanced k (s'.withStore fun store => setStream (bumpNextStreamID store)
        (newStream store payer payee token rate startTime stopTime cap))
      (H ++ [.opened (nextStreamID s.store) cap]) := by
  have hbelow := hb.ids.resolve_left hwrap
  have hstore : s'.store = s.store := hmoved.store
  have hsettled : parseAmount "0" = 0 := by rfl
  have hcapText : parseAmount (formatInt cap) = cap := parseAmount_formatInt hcap.le
  -- the new id has no record and no past
  have hnone : getStream s.store (nextStreamID s.store) = none := by
    cases h : getStream s.store (nextStreamID s.store) with
    | none => rfl
    | some st => exact absurd (hbelow _ (.inr ⟨st, h⟩)) (UInt64.lt_irrefl _)
  have hpast : ∀ e ∈ H, e.id ≠ nextStreamID s.store :=
    fun e he => UInt64.ne_of_lt (hbelow _ (.inl ⟨e, he, rfl⟩))
  obtain ⟨st, hst⟩ : ∃ st, newStream s.store payer payee token rate startTime stopTime cap = st :=
    ⟨_, rfl⟩
  have hstid : st.id = nextStreamID s.store := by rw [← hst]; rfl
  have hget : ∀ id, getStream (s'.withStore fun store => setStream (bumpNextStreamID store)
      (newStream store payer payee token rate startTime stopTime cap)).store id =
      if nextStreamID s.store = id then some st else getStream s.store id := by
    intro id
    rw [withStore_store, hstore, hst, getStream_setStream, getStream_bumpNextStreamID, hstid]
  refine hb.replace hget ?_ ?_ ?_ ?_ ?_ ?_
  · intro _ he
    rw [mem_singleton.mp he]
    rfl
  · intro st' hst'
    cases hst'
    exact hstid
  · intro _ hst'
    cases hst'
    subst hst
    refine ⟨⟨token, rfl⟩, ?_, ?_, ?_, ?_, ?_⟩
    · simpa [newStream] using hpayer
    · simpa [newStream] using hpayee
    · simp only [newStream, hsettled, hcapText]
      exact hcap.le
    · simp [newStream, hcapText]
    · rw [totalPaid_append, hstid, totalPaid_eq_zero hpast]
      simp [totalPaid, Event.paidOn, newStream, hsettled]
  · intro t
    have hset := outstanding_setStream t (bumpNextStreamID s.store) st
    have hbump : outstanding t (bumpNextStreamID s.store) = outstanding t s.store :=
      outstanding_insert_of_not_index t _ (by decide) _
    have hnew : owedIn t st = if token = t then cap.toNat else 0 := by
      have htoken : st.token = token.bytes := by rw [← hst]; rfl
      rw [owedIn_of_token htoken, unspentCap, ← hst]
      simp only [newStream, hsettled, hcapText, sub_zero, if_neg (not_lt.mpr hcap.le)]
    have hpool := hb.pool t
    have hinto := hmoved.into hmade hpayer t
    rw [getStream_bumpNextStreamID, hstid, hnone, elim_none, hbump, hnew] at hset
    rw [withStore_assets, withStore_store, hstore, hst]
    omega
  · rw [withStore_store, hstore, hst, storedCounter_setStream, storedCounter_bumpNextStreamID]
    exact IdsBelow.allocate hbelow fun id h => h.symm
  · exact Chronological.append hb.square fun id refund he => by cases he

variable {id : UInt64} {st : Stream} (hget : getStream s.store id = some st)

include hget

/-- Closing takes what the stream is still owed out of the pool, in two payments. -/
theorem close {now : UInt64} {s'' : State}
    (hmoved : Moved env.first st.token k.moduleAccount (.ofBytes st.payee)
      (streamAccrued st now) s s') (hmade : PayoutHonest k env now st)
    (hmoved' : Moved env.second st.token k.moduleAccount (.ofBytes st.payer)
      (unspentCap (st.addSettled (streamAccrued st now))) s' s'')
    (hmade' : RefundHonest k env now st) : Balanced k (s''.withStore fun store =>
        deleteStream store (st.addSettled (streamAccrued st now)))
      (H ++ [.paid id (streamAccrued st now),
        .closed id (unspentCap (st.addSettled (streamAccrued st now)))]) := by
  have hsound := hb.sound id st hget
  have hstid := hb.record_id id st hget
  have hnonneg := streamAccrued_nonneg st now
  have hle := settled_add_streamAccrued_le hsound.settled_le now
  obtain ⟨_, ht⟩ := hsound.token
  have hstore : s''.store = s.store := hmoved'.store.trans hmoved.store
  have hrefund := unspentCap_addSettled hnonneg hle
  have hget' : ∀ id', getStream (s''.withStore fun store =>
      deleteStream store (st.addSettled (streamAccrued st now))).store id' =
      if id = id' then none else getStream s.store id' := by
    intro id'
    rw [withStore_store, hstore, getStream_deleteStream, addSettled_id, hstid]
  refine hb.replace hget' ?_ (fun _ h => nomatch h) (fun _ h => nomatch h) ?_ ?_ ?_
  · intro e he
    cases mem_cons.mp he with
    | inl hfirst => rw [hfirst]; rfl
    | inr hlast => rw [mem_singleton.mp hlast]; rfl
  · intro t
    have hdelete := outstanding_deleteStream t s.store (st.addSettled (streamAccrued st now))
    rw [addSettled_id, hstid, hget, elim_some, owedIn_of_token ht,
      unspentCap_eq hsound.settled_le] at hdelete
    have hpool := hb.pool t
    have hpay := hmade
    have hback := hmade'.1
    unfold PayoutHonest at hpay
    rw [ht] at hmoved hmoved' hpay hback
    have hout := hmoved.out hpay hsound.payee t
    have hout' := hmoved'.out hback hsound.payer t
    rw [hrefund] at hout'
    rw [withStore_assets, withStore_store, hstore]
    split at hdelete
    · rename_i hsame
      rw [if_pos hsame] at hout hout'
      omega
    · rename_i hne
      rw [if_neg hne] at hout hout'
      omega
  · rw [withStore_store, hstore, storedCounter_deleteStream]
    exact hb.ids_of_stored hget
  · have happend := Chronological.append (e := Event.closed id
      (unspentCap (st.addSettled (streamAccrued st now))))
        (hb.square_paid id (streamAccrued st now)) ?_
    · rw [append_assoc] at happend
      exact happend
    intro _ _ he
    cases he
    refine ⟨parseAmount st.cap, ?_, ?_⟩
    · rw [← hstid]
      exact mem_append_left _ hsound.opened
    have hpast := hsound.paid
    rw [hstid] at hpast
    rw [totalPaid_append, hpast, totalPaid_paid, hrefund]
    omega

theorem refund_covered {now : UInt64} {token : Address} (ht : st.token = token.bytes)
    (hmoved : Moved env.first st.token k.moduleAccount (.ofBytes st.payee)
      (streamAccrued st now) s s') (hmade : PayoutHonest k env now st) :
    (unspentCap (st.addSettled (streamAccrued st now))).toNat ≤
      s'.assets token k.moduleAccount := by
  have hsound := hb.sound id st hget
  have hnonneg := streamAccrued_nonneg st now
  have hle := settled_add_streamAccrued_le hsound.settled_le now
  have howed := outstanding_deleteStream token s.store st
  rw [hb.record_id id st hget, hget, elim_some, owedIn_of_token ht, if_pos rfl,
    unspentCap_eq hsound.settled_le] at howed
  have hpool := hb.pool token
  unfold PayoutHonest at hmade
  rw [ht] at hmoved hmade
  have hout := hmoved.out hmade hsound.payee token
  rw [if_pos rfl] at hout
  rw [unspentCap_addSettled hnonneg hle]
  omega

end Balanced

/-! ## Steps and runs -/

theorem Balanced.perform {env : Env} (hb : Balanced k c.state c.history)
    (hok : Honest k env c.now c.state.store o) :
    Balanced k (c.perform k env o).state (c.perform k env o).history := by
  cases o with
  | openStream payer payee token rate startTime stopTime cap =>
    obtain ⟨hpayer, hpayee, hwrap, hmade⟩ := hok
    rcases openStream_cases k env c.now c.state payer payee token rate startTime stopTime cap with
      ⟨e, he⟩ | ⟨-, -, hcap, -, s', hmoved, hrun⟩
    · rw [perform_of_error (run_bind_of_error he)]
      exact hb
    · rw [perform_of_ok (run_bind_of_ok hrun)]
      exact hb.openStream _ _ hpayer hpayee hwrap hcap hmoved hmade
  | settle streamID =>
    rcases settle_cases k env c.now c.state streamID with
      ⟨e, he⟩ | ⟨st, hget, ⟨-, hrun⟩ | ⟨hpos, s', hmoved, hrun⟩⟩
    · rw [perform_of_error (run_bind_of_error he)]
      exact hb
    · rw [perform_of_ok (run_bind_of_ok hrun)]
      exact hb.payNothing hget
    rw [perform_of_ok (run_bind_of_ok hrun)]
    exact hb.payout hget hmoved (hok st hget) (addSettled_id st) (addSettled_token st)
      (addSettled_payer st) (addSettled_payee st) (addSettled_cap st) hpos.le
      (addSettled_settled st hpos.le)
      (settled_add_streamAccrued_le (hb.sound _ st hget).settled_le c.now)
  | close streamID caller =>
    rcases close_cases k env c.now c.state streamID caller.bytes with
      ⟨e, he⟩ | ⟨st, s', hget, -, -, hmoved, ⟨hdecl, e, hrun⟩ | ⟨_, hmoved', hrun⟩⟩
    · rw [perform_of_error (run_bind_of_error he)]
      exact hb
    · -- the refund fails: only after a payout of nothing, which changes nothing
      obtain ⟨hpay, -, haccepts⟩ := hok st hget
      obtain ⟨_, ht⟩ := (hb.sound _ st hget).token
      have hnonneg := streamAccrued_nonneg st c.now
      by_cases hpos : 0 < streamAccrued st c.now
      · exfalso
        have hcov := hb.refund_covered hget ht hmoved hpay
        have haccepts := haccepts hpos
        rw [ht] at haccepts
        rw [ht, ofBytes_bytes] at hdecl
        exact hdecl.2 ⟨haccepts, hcov⟩
      have hzero : streamAccrued st c.now = 0 := by omega
      have hsame : s' = c.state := by
        rw [hzero] at hmoved
        rcases hmoved with ⟨-, rfl⟩ | ⟨-, -, rfl⟩
        · rfl
        · exact pay_zero _ _ _ _
      rw [perform_of_error (run_bind_of_error hrun), hsame]
      exact hb
    · rw [perform_of_ok (run_bind_of_ok hrun)]
      exact hb.close hget hmoved (hok st hget).1 hmoved' (hok st hget).2
  | updateRate streamID caller newRate =>
    rcases updateRate_cases k env c.now c.state streamID caller.bytes newRate with
      ⟨_, he⟩ | ⟨st, _, hget, -, -, hmoved, hrun⟩
    · rw [perform_of_error (run_bind_of_error he)]
      exact hb
    rw [perform_of_ok (run_bind_of_ok hrun)]
    have hnonneg := streamAccrued_nonneg st c.now
    exact hb.payout hget hmoved (hok st hget) (addSettled_id st) (addSettled_token st)
      (addSettled_payer st) (addSettled_payee st) (addSettled_cap st) hnonneg
      (addSettled_settled st hnonneg)
      (settled_add_streamAccrued_le (hb.sound _ st hget).settled_le c.now)

theorem Balanced.setParams (hb : Balanced k s H) {p : Params} {store : Store}
    (h : setParams s.store p = .ok store) : Balanced k { s with store := store } H := by
  have hstore : store = s.store.insert paramsKey (.params p) := by
    unfold Streams.setParams at h
    split at h
    · cases h
      rfl
    · cases h
  have hget : ∀ id, getStream store id = getStream s.store id := by
    intro id
    rw [hstore, getStream, getStream, get_insert_of_ne _ _ (paramsKey_ne_idKey id)]
  have hcounter : storedCounter store = storedCounter s.store := by
    rw [hstore, storedCounter, storedCounter, get_insert_of_ne _ _ (by decide)]
  refine ⟨?_, ?_, ?_, ?_, hb.square⟩
  · intro id st hst
    rw [hget] at hst
    exact hb.record_id id st hst
  · intro id st hst
    rw [hget] at hst
    exact hb.sound id st hst
  · intro t
    simp only
    rw [hstore, outstanding_insert_of_not_index t _ (by decide)]
    exact hb.pool t
  simp only
  rw [hcounter]
  refine hb.ids.mono ?_
  rintro id (hpast | ⟨st, hst⟩)
  · exact .inl hpast
  · exact .inr ⟨st, by rw [← hget]; exact hst⟩

theorem Balanced.step {c' : Config} {l : Label} (hb : Balanced k c.state c.history)
    (hok : HonestStep k c l) (h : step k c l = some c') : Balanced k c'.state c'.history := by
  cases l with
  | setParams =>
    simp only [Streams.step] at h
    split at h
    · rename_i store hset
      cases h
      exact hb.setParams hset
    · cases h
  | op =>
    cases h
    exact hb.perform hok
  | advance =>
    simp only [Streams.step] at h
    split at h
    · cases h
      exact hb
    · cases h

/-- The property of a configuration: the module holds exactly what the live streams
are owed, no stream has been paid past its cap, and closed streams came out
even. -/
structure PoolExact (k : Keeper) (c : Config) : Prop where
  pool : ∀ t, c.state.assets t k.moduleAccount = outstanding t c.state.store
  settled : ∀ id st, getStream c.state.store id = some st →
    0 ≤ parseAmount st.settled ∧ parseAmount st.settled ≤ parseAmount st.cap
  square : ClosedSquare c.history

/-- In every run whose calls are honest (the parties are not the module account, no
token answers `false`, no refund is declined after a payout, no id is reused), the
pool is exact in every state reached. -/
theorem poolExact_of_path (k : Keeper) (now : UInt64) (assets : Address → Ledger) (c : Config)
    (h : Path (step k) (HonestStep k) (.start k now assets) c) : PoolExact k c := by
  have hb : Balanced k c.state c.history :=
    Path.invariant (I := fun c => Balanced k c.state c.history)
      (fun t l u ht hok hl => .step ht hok hl) (.start k now assets) h
  refine ⟨hb.pool, ?_, hb.square⟩
  intro id st hst
  exact ⟨parseAmount_nonneg _, (hb.sound id st hst).settled_le⟩

/-! ## A refund that fails after the payout -/

namespace DeclinedRefund

def keeper : Keeper := ⟨.ofNat 100⟩
def payer : Address := .ofNat 1
def payee : Address := .ofNat 2
def token : Address := .ofNat 7

def assets : Address → Ledger := fun t a => if t = token ∧ a = payer then 500 else 0

/-- A token that moves every amount, or that reverts transfers to the payer. -/
def answers (declinesPayer : Bool) : Answers where
  refuses _ _ _ := false
  erc20 _ _ dst _ := if declinesPayer ∧ dst = payer then .reverts else .moves

def env (declinesPayer : Bool) : Env := ⟨answers declinesPayer, answers declinesPayer⟩

/-- At time 1000 a stream of one unit per second is opened with a cap of 100; at
time 1040 its payee closes it. -/
def labels (declinesPayer : Bool) : List Label :=
  [.op (env false) (.openStream payer payee token 1 0 0 100), .advance 1040,
    .op (env declinesPayer) (.close 1 payee)]

/-- What is owed in the token, and what the module holds of it. -/
def ledgerOf (c : Config) : Nat × Nat :=
  (outstanding token c.state.store, c.state.assets token keeper.moduleAccount)

end DeclinedRefund

open DeclinedRefund in
/-- The payee is paid 40; the refund of 60 to the payer fails and the call returns an
error, but the payout stays made and the record still says that nothing was
settled. -/
theorem declinedRefund_short :
    ∃ c, Path (step keeper) (fun _ _ => True) (.start keeper 1000 assets) c ∧
      ¬ PoolExact keeper c := by
  have hrun : (runLabels (guardedStep (step keeper) fun _ _ => True)
      (.start keeper 1000 assets) (labels true)).map ledgerOf = some (100, 60) := by
    decide +kernel
  obtain ⟨c, hc, hledger⟩ := map_eq_some_iff.mp hrun
  refine ⟨c, path_of_runLabels hc, ?_⟩
  intro hexact
  obtain ⟨howed, hheld⟩ := Prod.mk.inj hledger
  have hpool := hexact.pool token
  rw [howed, hheld] at hpool
  exact absurd hpool (by decide)

open DeclinedRefund in
/-- The same run with a token that declines nothing. -/
theorem poolExact_without_decline :
    ∃ c : Config, c.history = [.opened 1 100, .paid 1 40, .closed 1 60] ∧ PoolExact keeper c := by
  have hrun : (runLabels (guardedStep (step keeper) (HonestStep keeper))
      (.start keeper 1000 assets) (labels false)).map Config.history =
      some [.opened 1 100, .paid 1 40, .closed 1 60] := by
    decide +kernel
  obtain ⟨c, hc, hhistory⟩ := map_eq_some_iff.mp hrun
  exact ⟨c, hhistory, poolExact_of_path keeper 1000 assets c (path_of_runLabels hc)⟩

end HyperPax.Streams
