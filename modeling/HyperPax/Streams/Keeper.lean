/-
  Streams/Keeper.lean --- open, settle, close and update-rate, and the escrow.

  Source: x/streams/keeper/{settle_impl,escrow}.go.

  A stream's token is the zero address for the native coin, moved by the bank, or
  the address of an ERC-20 contract, called through the EVM.  The keeper looks only
  at the error of that call, never at the boolean the token returns.
-/
import HyperPax.Streams.Types

set_option autoImplicit false

namespace HyperPax.Streams

open Lib Action List Address

/-! ## State and environment -/

/-- The store, and the balances of every token; the zero address stands for the
native coin, whose balances are the bank's. -/
structure State where
  store : Store
  assets : Address → Ledger

/-- The dependencies of the keeper: here only the address of the module account. -/
structure Keeper where
  moduleAccount : Address

/-- What an ERC-20 does with a transfer: it moves the amount, it reverts, or it
returns `false` and moves nothing. -/
inductive TokenReply where
  | moves
  | reverts
  | returnsFalse
deriving DecidableEq

/-- What the bank and the token contracts answer to a transfer. -/
structure Answers where
  refuses : Refusal
  erc20 : (token src dst : Address) → Nat → TokenReply

/-- The answers during one call of the keeper: to its first transfer, and to the refund
that a close makes after its payout. -/
structure Env where
  first : Answers
  second : Answers

namespace State

/-- The state after a covered transfer of one token. -/
def pay (s : State) (token src dst : Address) (n : Nat) : State :=
  { s with assets := Function.update s.assets token ((s.assets token).transfer src dst n) }

/-- The state with another store. -/
def withStore (s : State) (f : Store → Store) : State :=
  { s with store := f s.store }

@[simp] theorem pay_store (s : State) (token src dst : Address) (n : Nat) :
    (s.pay token src dst n).store = s.store := rfl

@[simp] theorem withStore_store (s : State) (f : Store → Store) :
    (s.withStore f).store = f s.store := rfl

@[simp] theorem withStore_assets (s : State) (f : Store → Store) :
    (s.withStore f).assets = s.assets := rfl

@[simp] theorem pay_assets_same (s : State) (token src dst : Address) (n : Nat) :
    (s.pay token src dst n).assets token = (s.assets token).transfer src dst n := by
  simp [pay]

theorem pay_assets_other (s : State) {token token' : Address} (src dst : Address) (n : Nat)
    (h : token' ≠ token) : (s.pay token src dst n).assets token' = s.assets token' := by
  simp [pay, h]

theorem pay_zero (s : State) (token src dst : Address) : s.pay token src dst 0 = s := by
  simp [pay, Ledger.transfer_zero]

theorem pay_self (s : State) {token src : Address} {n : Nat} (h : n ≤ s.assets token src) :
    s.pay token src src n = s := by
  simp [pay, Ledger.transfer_self _ h]

end State

/-! ## Moving tokens -/

/-- `isNativeToken`: every byte is zero. -/
def isNativeToken (token : List UInt8) : Bool :=
  token.all fun b => b == 0

variable {token : List UInt8} {ans : Answers} {src dst : Address} {amount : Int} {s : State}

theorem ofBytes_of_isNativeToken (h : isNativeToken token) :
    ofBytes token = zero := by
  have hzero : zero.bytes = List.replicate 20 0 := rfl
  refine ext ?_
  rw [hzero, eq_replicate_iff]
  refine ⟨(ofBytes token).length_bytes, ?_⟩
  intro b hb
  rcases mem_append.mp hb with hb | hb
  · exact (mem_replicate.mp hb).2
  · simpa using all_eq_true.mp h b (mem_of_mem_drop hb)

/-- The body that `escrowFromPayer` and `payOutToPayee` share: nothing to do for zero
or less, a bank send for the native coin, an EVM call for an ERC-20. -/
def moveToken (ans : Answers) (erc20Error : TransferError) (token : List UInt8) (src dst : Address)
    (amount : Int) : Action State TransferError Unit :=
  if amount ≤ 0 then pure ()
  else if isNativeToken token then
    .zoom (fun s => s.assets .zero)
      (fun s l => { s with assets := Function.update s.assets zero l }) TransferError.bank
      (sendCoins ans.refuses src dst amount.toNat)
  else
    match ans.erc20 (.ofBytes token) src dst amount.toNat with
    | .reverts => .fail erc20Error
    | .returnsFalse => pure ()
    | .moves => do
      let balance ← .gets fun s => s.assets (.ofBytes token) src
      .rejectIf (balance < amount.toNat) erc20Error
      .zoom (fun s => s.assets (.ofBytes token))
        (fun s l => { s with assets := Function.update s.assets (.ofBytes token) l }) id
        (moveCoins src dst amount.toNat)

/-- The token answers `false`, which the keeper takes for success. -/
def Silent (ans : Answers) (token : List UInt8) (src dst : Address) (amount : Int) : Prop :=
  0 < amount ∧ isNativeToken token = false ∧
    ans.erc20 (.ofBytes token) src dst amount.toNat = .returnsFalse
deriving Decidable

/-- The bank or the token agrees to a movement (which may still find the sender
short). -/
def Accepts (ans : Answers) (token : List UInt8) (src dst : Address) (amount : Int) : Prop :=
  amount ≤ 0 ∨
    if isNativeToken token then ans.refuses src dst amount.toNat = false
    else ans.erc20 (.ofBytes token) src dst amount.toNat = .moves
deriving Decidable

/-- A movement out of `balance` fails: it is neither silently dropped nor both accepted
and covered. -/
def Declined (ans : Answers) (token : List UInt8) (src dst : Address) (amount : Int)
    (balance : Nat) : Prop :=
  ¬ Silent ans token src dst amount ∧
    ¬ (Accepts ans token src dst amount ∧ amount.toNat ≤ balance)

theorem Accepts.not_silent (h : Accepts ans token src dst amount) :
    ¬ Silent ans token src dst amount := by
  rintro ⟨_, herc20, hreply⟩
  rcases h with _ | h
  · omega
  · rw [if_neg (by simp [herc20]), hreply] at h
    cases h

/-- A movement fails and changes nothing, is silently not made, or is made. -/
theorem moveToken_cases (ans : Answers) (erc20Error : TransferError) (token : List UInt8)
    (src dst : Address) (amount : Int) (s : State) :
    (Declined ans token src dst amount (s.assets (.ofBytes token) src) ∧
        ∃ e, (moveToken ans erc20Error token src dst amount).run s = (s, .error e)) ∨
      (Silent ans token src dst amount ∧
        (moveToken ans erc20Error token src dst amount).run s = (s, .ok ())) ∨
      (Accepts ans token src dst amount ∧
        amount.toNat ≤ s.assets (.ofBytes token) src ∧
        (moveToken ans erc20Error token src dst amount).run s =
          (s.pay (.ofBytes token) src dst amount.toNat, .ok ())) := by
  unfold moveToken
  split
  · rename_i hle
    refine .inr (.inr ⟨.inl hle, ?_⟩)
    rw [Int.toNat_of_nonpos hle, State.pay_zero]
    exact ⟨Nat.zero_le _, rfl⟩
  rename_i hpos
  split
  · rename_i hnative
    have hsilent : ¬ Silent ans token src dst amount := fun h => by simp [h.2.1] at hnative
    rw [ofBytes_of_isNativeToken hnative]
    rcases sendCoins_cases ans.refuses src dst amount.toNat (s.assets zero) with
      ⟨hbad, e, he⟩ | ⟨_, hle, hok⟩
    · refine .inl ⟨⟨hsilent, ?_⟩, .bank e, ?_⟩
      · rintro ⟨hle | haccepts, hcov⟩
        · exact hpos hle
        · rw [if_pos hnative] at haccepts
          exact hbad ⟨haccepts, hcov⟩
      · rw [run_zoom_of_error (s := s) _ _ _ he]
        simp only [Function.update_eq_self]
    · refine .inr (.inr ⟨.inr ?_, hle, run_zoom_of_ok (s := s) _ _ _ hok⟩)
      rwa [if_pos hnative]
  · rename_i herc20
    split
    · rename_i hreply
      refine .inl ⟨⟨fun h => ?_, ?_⟩, _, rfl⟩
      · exact absurd (hreply.symm.trans h.2.2) (by simp)
      rintro ⟨hle | haccepts, -⟩
      · exact hpos hle
      · rw [if_neg herc20, hreply] at haccepts
        cases haccepts
    · rename_i hreply
      exact .inr (.inl ⟨⟨not_le.mp hpos, by simpa using herc20, hreply⟩, rfl⟩)
    rename_i hreply
    have haccepts : Accepts ans token src dst amount := by
      refine .inr ?_
      rwa [if_neg herc20]
    simp only [run_gets_bind, run_rejectIf_bind]
    split
    · rename_i hshort
      exact .inl ⟨⟨haccepts.not_silent, fun h => absurd h.2 (not_le.mpr hshort)⟩, _, rfl⟩
    · rename_i hcov
      exact .inr (.inr ⟨haccepts, not_lt.mp hcov, rfl⟩)

theorem moveToken_of_accepts (erc20Error : TransferError)
    (haccepts : Accepts ans token src dst amount)
    (hcov : amount.toNat ≤ s.assets (.ofBytes token) src) :
    (moveToken ans erc20Error token src dst amount).run s =
      (s.pay (.ofBytes token) src dst amount.toNat, .ok ()) := by
  rcases moveToken_cases ans erc20Error token src dst amount s with
    ⟨hdecl, -⟩ | ⟨hsilent, -⟩ | ⟨-, -, hok⟩
  · exact absurd ⟨haccepts, hcov⟩ hdecl.2
  · exact absurd hsilent haccepts.not_silent
  · exact hok

theorem moveToken_of_declined (erc20Error : TransferError)
    (h : Declined ans token src dst amount (s.assets (.ofBytes token) src)) :
    ∃ e, (moveToken ans erc20Error token src dst amount).run s = (s, .error e) := by
  rcases moveToken_cases ans erc20Error token src dst amount s with
    ⟨-, he⟩ | ⟨hsilent, -⟩ | ⟨haccepts, hcov, -⟩
  · exact he
  · exact absurd hsilent h.1
  · exact absurd ⟨haccepts, hcov⟩ h.2

/-- What a movement that returned without an error has done. -/
def Moved (ans : Answers) (token : List UInt8) (src dst : Address) (amount : Int) (s s' : State) :
    Prop :=
  (Silent ans token src dst amount ∧ s' = s) ∨
    (Accepts ans token src dst amount ∧ amount.toNat ≤ s.assets (.ofBytes token) src ∧
      s' = s.pay (.ofBytes token) src dst amount.toNat)

theorem Moved.store {s' : State} (h : Moved ans token src dst amount s s') :
    s'.store = s.store := by
  rcases h with ⟨-, rfl⟩ | ⟨-, -, rfl⟩ <;> rfl

theorem moveToken_outcome (ans : Answers) (erc20Error : TransferError) (token : List UInt8)
    (src dst : Address) (amount : Int) (s : State) :
    (Declined ans token src dst amount (s.assets (.ofBytes token) src) ∧
        ∃ e, (moveToken ans erc20Error token src dst amount).run s = (s, .error e)) ∨
      ∃ s', Moved ans token src dst amount s s' ∧
        (moveToken ans erc20Error token src dst amount).run s = (s', .ok ()) := by
  rcases moveToken_cases ans erc20Error token src dst amount s with
    h | ⟨h, hrun⟩ | ⟨haccepts, hcov, hrun⟩
  · exact .inl h
  · exact .inr ⟨s, .inl ⟨h, rfl⟩, hrun⟩
  · exact .inr ⟨_, .inr ⟨haccepts, hcov, rfl⟩, hrun⟩

/-- `escrowFromPayer`. -/
def escrowFromPayer (k : Keeper) (ans : Answers) (payer : Address) (token : List UInt8)
    (amount : Int) : Action State TransferError Unit :=
  moveToken ans .erc20Escrow token payer k.moduleAccount amount

/-- `payOutToPayee`. -/
def payOutToPayee (k : Keeper) (ans : Answers) (payee : Address) (token : List UInt8)
    (amount : Int) : Action State TransferError Unit :=
  moveToken ans .erc20Payout token k.moduleAccount payee amount

/-- `refundToPayer`: a payout in the other direction. -/
def refundToPayer (k : Keeper) (ans : Answers) (payer : Address) (token : List UInt8)
    (amount : Int) : Action State TransferError Unit :=
  payOutToPayee k ans payer token amount

/-- Run a movement inside a keeper method. -/
def transferring {α : Type} (wrap : TransferError → Err) (x : Action State TransferError α) :
    Action State Err α :=
  .zoom id (fun _ s => s) wrap x

/-! ## Accrual -/

/-- `parseAmount`. -/
def parseAmount (s : String) : Int := parseNonneg s

theorem parseAmount_nonneg (s : String) : 0 ≤ parseAmount s := parseNonneg_nonneg s

@[simp] theorem parseAmount_formatInt {d : Int} (h : 0 ≤ d) : parseAmount (formatInt d) = d :=
  parseNonneg_formatInt h

/-- The time up to which a stream has accrued: its stop time once that is past. -/
def effectiveNow (s : Stream) (now : UInt64) : UInt64 :=
  if s.stopTime ≠ 0 ∧ s.stopTime < now then s.stopTime else now

/-- What the payee has earned since the start time, at most the cap. -/
def earned (s : Stream) (now : UInt64) : Int :=
  let earned := parseAmount s.ratePerSecond * ((effectiveNow s now - s.startTime).toNat : Int)
  if parseAmount s.cap < earned then parseAmount s.cap else earned

/-- `streamAccrued`. -/
def streamAccrued (s : Stream) (now : UInt64) : Int :=
  if effectiveNow s now ≤ s.startTime then 0
  else
    let out := earned s now - parseAmount s.settled
    if out < 0 then 0 else out

theorem streamAccrued_nonneg (s : Stream) (now : UInt64) : 0 ≤ streamAccrued s now := by
  unfold streamAccrued
  split
  · exact le_refl 0
  · dsimp only
    split <;> omega

theorem earned_le_cap (s : Stream) (now : UInt64) : earned s now ≤ parseAmount s.cap := by
  unfold earned
  dsimp only
  split <;> omega

theorem settled_add_streamAccrued_le {s : Stream} (h : parseAmount s.settled ≤ parseAmount s.cap)
    (now : UInt64) : parseAmount s.settled + streamAccrued s now ≤ parseAmount s.cap := by
  have hcap := earned_le_cap s now
  unfold streamAccrued
  split
  · omega
  · dsimp only
    split <;> omega

/-- The record after a payout: a zero payout leaves it as it is. -/
def Stream.addSettled (s : Stream) (payout : Int) : Stream :=
  if 0 < payout then { s with settled := formatInt (parseAmount s.settled + payout) } else s

section

variable (s : Stream) {payout : Int}

theorem addSettled_settled (h : 0 ≤ payout) :
    parseAmount (s.addSettled payout).settled = parseAmount s.settled + payout := by
  have hnonneg := parseAmount_nonneg s.settled
  unfold Stream.addSettled
  split
  · rw [parseAmount_formatInt (by omega)]
  · omega

@[simp] theorem addSettled_id : (s.addSettled payout).id = s.id := by
  unfold Stream.addSettled
  split <;> rfl

@[simp] theorem addSettled_payer : (s.addSettled payout).payer = s.payer := by
  unfold Stream.addSettled
  split <;> rfl

@[simp] theorem addSettled_payee : (s.addSettled payout).payee = s.payee := by
  unfold Stream.addSettled
  split <;> rfl

@[simp] theorem addSettled_token : (s.addSettled payout).token = s.token := by
  unfold Stream.addSettled
  split <;> rfl

@[simp] theorem addSettled_active : (s.addSettled payout).active = s.active := by
  unfold Stream.addSettled
  split <;> rfl

@[simp] theorem addSettled_cap : (s.addSettled payout).cap = s.cap := by
  unfold Stream.addSettled
  split <;> rfl

end

/-! ## Writes -/

/-- One write of the store. -/
def write (f : Store → Store) : Action State Err Unit := .modify fun s => s.withStore f

/-- `SetStream`, write by write. -/
def putStream (s : Stream) : Action State Err Unit := do
  write fun store => store.insert (streamByIDKey s.id) (.stream s)
  write fun store => store.insert (payerStreamKey s.payer s.id) .marker
  write fun store => store.insert (payeeStreamKey s.payee s.id) .marker

/-- `DeleteStream`, write by write. -/
def dropStream (s : Stream) : Action State Err Unit := do
  write fun store => store.erase (streamByIDKey s.id)
  write fun store => store.erase (payerStreamKey s.payer s.id)
  write fun store => store.erase (payeeStreamKey s.payee s.id)

/-! ## Open -/

/-- The record `Open` writes. -/
def newStream (store : Store) (payer payee token : Address) (ratePerSecond : Int)
    (startTime stopTime : UInt64) (cap : Int) : Stream where
  id := nextStreamID store
  payer := payer.bytes
  payee := payee.bytes
  token := token.bytes
  ratePerSecond := formatInt ratePerSecond
  cap := formatInt cap
  startTime := startTime
  stopTime := stopTime
  settled := "0"
  active := true

/-- A zero start time means now. -/
def startOrNow (startTime now : UInt64) : UInt64 :=
  if startTime = 0 then now else startTime

/-- `Open`, at block time `now`. -/
def openStream (k : Keeper) (env : Env) (now : UInt64) (payer payee token : Address)
    (ratePerSecond : Int) (startTime stopTime : UInt64) (cap : Int) : Action State Err UInt64 := do
  .rejectIf (payee = .zero) .invalidPayee
  .rejectIf (payer = payee) .selfPayment
  .rejectIf (ratePerSecond ≤ 0) .invalidRate
  .rejectIf (cap ≤ 0) .invalidCap
  let startTime := startOrNow startTime now
  let params ← .gets fun s => getParams s.store
  .rejectIf (stopTime ≠ 0 ∧ stopTime < startTime + params.minDuration)
    (.invalidTime stopTime (startTime + params.minDuration))
  let count ← .gets fun s => countStreamsByPayer s.store payer.bytes
  .rejectIf (count ≥ params.maxStreamsPerPayer)
    (.maxStreamsExceeded payer params.maxStreamsPerPayer)
  transferring .escrowFailed (escrowFromPayer k env.first payer token.bytes cap)
  let stream ← .gets fun s =>
    newStream s.store payer payee token ratePerSecond startTime stopTime cap
  write bumpNextStreamID
  putStream stream
  return stream.id

/-! ## Settle, Close, UpdateRate -/

/-- The checks the three methods start with: the stream is stored and active. -/
def liveStream (streamID : UInt64) : Action State Err Stream := do
  let found ← .gets fun s => getStream s.store streamID
  let stream ← .orFail found (.streamNotFound streamID)
  .rejectIf (stream.active = false) (.streamInactive streamID)
  return stream

/-- `Settle`: pays what has accrued, whoever calls. -/
def settle (k : Keeper) (env : Env) (now : UInt64) (streamID : UInt64) : Action State Err Int := do
  let stream ← liveStream streamID
  let payout := streamAccrued stream now
  if payout = 0 then return 0
  else do
    transferring .transfer
      (payOutToPayee k env.first (.ofBytes stream.payee) stream.token payout)
    putStream (stream.addSettled payout)
    return payout

/-- `cap - settled`, or zero. -/
def unspentCap (s : Stream) : Int :=
  let refund := parseAmount s.cap - parseAmount s.settled
  if refund < 0 then 0 else refund

theorem unspentCap_eq {s : Stream} (h : parseAmount s.settled ≤ parseAmount s.cap) :
    unspentCap s = parseAmount s.cap - parseAmount s.settled := by
  unfold unspentCap
  dsimp only
  split <;> omega

theorem unspentCap_addSettled {s : Stream} {payout : Int} (hnonneg : 0 ≤ payout)
    (hle : parseAmount s.settled + payout ≤ parseAmount s.cap) :
    unspentCap (s.addSettled payout) =
      parseAmount s.cap - parseAmount s.settled - payout := by
  have hsettled := addSettled_settled s hnonneg
  have hcap : parseAmount (s.addSettled payout).cap = parseAmount s.cap := by rw [addSettled_cap]
  rw [unspentCap_eq (by omega)]
  omega

/-- `Close`: the final payout, the refund of the rest of the cap, the deletion.  The
result is the payout the method returns and the refund its event shows. -/
def close (k : Keeper) (env : Env) (now : UInt64) (streamID : UInt64) (caller : List UInt8) :
    Action State Err (Int × Int) := do
  let stream ← liveStream streamID
  .rejectIf (equalAddress caller stream.payer = false ∧
    equalAddress caller stream.payee = false) (.notParty caller streamID)
  let payout := streamAccrued stream now
  transferring .transfer
    (payOutToPayee k env.first (.ofBytes stream.payee) stream.token payout)
  let refund := unspentCap (stream.addSettled payout)
  transferring .transfer
    (refundToPayer k env.second (.ofBytes stream.payer) stream.token refund)
  dropStream (stream.addSettled payout)
  return (payout, refund)

/-- `UpdateRate`: settles at the old rate, then restarts the clock at the new one.
The result is the payout it makes. -/
def updateRate (k : Keeper) (env : Env) (now : UInt64) (streamID : UInt64) (caller : List UInt8)
    (newRate : Int) : Action State Err Int := do
  let stream ← liveStream streamID
  .rejectIf (equalAddress caller stream.payer = false) (.notPayer caller streamID)
  .rejectIf (newRate ≤ 0) .invalidRate
  let payout := streamAccrued stream now
  transferring .transfer
    (payOutToPayee k env.first (.ofBytes stream.payee) stream.token payout)
  putStream { stream.addSettled payout with ratePerSecond := formatInt newRate, startTime := now }
  return payout

/-! ## What the methods can do -/

variable (k : Keeper) (env : Env) (now : UInt64) (s : State) {α : Type} {wrap : TransferError → Err}
  {x : Action State TransferError α} {streamID : UInt64} {stream : Stream} {caller : List UInt8}

theorem transferring_of_ok {s s' : State} {a : α} (h : x.run s = (s', .ok a)) :
    (transferring wrap x).run s = (s', .ok a) :=
  run_zoom_of_ok id (fun _ s => s) wrap h

theorem transferring_of_error {s s' : State} {e : TransferError} (h : x.run s = (s', .error e)) :
    (transferring wrap x).run s = (s', .error (wrap e)) :=
  run_zoom_of_error id (fun _ s => s) wrap h

theorem openStream_cases (payer payee token : Address) (ratePerSecond : Int)
    (startTime stopTime : UInt64) (cap : Int) :
    let x := openStream k env now payer payee token ratePerSecond startTime stopTime cap
    (∃ e, x.run s = (s, .error e)) ∨
      (payer ≠ payee ∧ 0 < ratePerSecond ∧ 0 < cap ∧
        countStreamsByPayer s.store payer.bytes < (getParams s.store).maxStreamsPerPayer ∧
        ∃ s', Moved env.first token.bytes payer k.moduleAccount cap s s' ∧
          x.run s = (s'.withStore fun store => setStream (bumpNextStreamID store)
            (newStream store payer payee token ratePerSecond (startOrNow startTime now) stopTime
              cap), .ok (nextStreamID s.store))) := by
  intro x
  simp only [x, openStream, run_rejectIf_bind, run_gets_bind]
  split
  · exact .inl ⟨_, rfl⟩
  split
  · exact .inl ⟨_, rfl⟩
  rename_i hself
  split
  · exact .inl ⟨_, rfl⟩
  split
  · exact .inl ⟨_, rfl⟩
  split
  · exact .inl ⟨_, rfl⟩
  split
  · exact .inl ⟨_, rfl⟩
  rename_i hcount
  rcases moveToken_outcome env.first .erc20Escrow token.bytes payer k.moduleAccount cap s with
    ⟨-, _, he⟩ | ⟨s', hmoved, hok⟩
  · exact .inl ⟨_, run_bind_of_error (transferring_of_error he)⟩
  refine .inr ⟨hself, by omega, by omega, UInt32.not_le.mp hcount, s', hmoved, ?_⟩
  rw [← hmoved.store]
  exact run_bind_of_ok (transferring_of_ok hok)

theorem openStream_of_accepts {s : State} {payer payee token : Address} {ratePerSecond : Int}
    {startTime stopTime : UInt64} {cap : Int} (hpayee : payee ≠ .zero)
    (hself : payer ≠ payee) (hrate : 0 < ratePerSecond) (hcap : 0 < cap)
    (htime : ¬ (stopTime ≠ 0 ∧
      stopTime < startOrNow startTime now + (getParams s.store).minDuration))
    (hcount : countStreamsByPayer s.store payer.bytes < (getParams s.store).maxStreamsPerPayer)
    (haccepts : Accepts env.first token.bytes payer k.moduleAccount cap)
    (hcov : cap.toNat ≤ s.assets token payer) :
    (openStream k env now payer payee token ratePerSecond startTime stopTime cap).run s =
      ((s.pay token payer k.moduleAccount cap.toNat).withStore fun store =>
          setStream (bumpNextStreamID store) (newStream store payer payee token ratePerSecond
            (startOrNow startTime now) stopTime cap),
        .ok (nextStreamID s.store)) := by
  have hmove := moveToken_of_accepts .erc20Escrow haccepts (s := s)
    (by rw [ofBytes_bytes]; exact hcov)
  rw [ofBytes_bytes] at hmove
  simp only [openStream, run_rejectIf_bind, run_gets_bind]
  rw [if_neg hpayee, if_neg hself, if_neg (not_le.mpr hrate), if_neg (not_le.mpr hcap),
    if_neg htime, if_neg (UInt32.not_le.mpr hcount)]
  exact run_bind_of_ok (transferring_of_ok hmove)

theorem liveStream_cases (streamID : UInt64) :
    (∃ e, (liveStream streamID).run s = (s, .error e)) ∨
      ∃ stream, getStream s.store streamID = some stream ∧ stream.active ∧
        (liveStream streamID).run s = (s, .ok stream) := by
  simp only [liveStream, run_gets_bind, run_orFail_bind, run_rejectIf_bind,
    run_pure]
  cases hs : getStream s.store streamID with
  | none => exact .inl ⟨_, rfl⟩
  | some stream =>
    simp only
    split
    · exact .inl ⟨_, rfl⟩
    · rename_i hactive
      exact .inr ⟨stream, rfl, by simpa using hactive, rfl⟩

theorem liveStream_of_active {s : State} (hget : getStream s.store streamID = some stream)
    (hactive : stream.active) : (liveStream streamID).run s = (s, .ok stream) := by
  simp only [liveStream, run_gets_bind, run_orFail_bind, hget,
    run_rejectIf_bind, hactive, Bool.true_eq_false, if_false, run_pure]

theorem settle_cases (streamID : UInt64) :
    (∃ e, (settle k env now streamID).run s = (s, .error e)) ∨
      ∃ stream, getStream s.store streamID = some stream ∧
        ((streamAccrued stream now = 0 ∧ (settle k env now streamID).run s = (s, .ok 0)) ∨
          (0 < streamAccrued stream now ∧
            ∃ s', Moved env.first stream.token k.moduleAccount (.ofBytes stream.payee)
                (streamAccrued stream now) s s' ∧
              (settle k env now streamID).run s =
                (s'.withStore fun store =>
                    setStream store (stream.addSettled (streamAccrued stream now)),
                  .ok (streamAccrued stream now)))) := by
  unfold settle
  rcases liveStream_cases s streamID with ⟨e, he⟩ | ⟨stream, hget, -, hlive⟩
  · exact .inl ⟨e, run_bind_of_error he⟩
  rw [run_bind_of_ok hlive]
  dsimp only
  split
  · rename_i hzero
    exact .inr ⟨stream, hget, .inl ⟨hzero, rfl⟩⟩
  rename_i hne
  have hpos : 0 < streamAccrued stream now := by
    have hnonneg := streamAccrued_nonneg stream now
    omega
  rcases moveToken_outcome env.first .erc20Payout stream.token k.moduleAccount
    (.ofBytes stream.payee) (streamAccrued stream now) s with
    ⟨-, _, he⟩ | ⟨s', hmoved, hok⟩
  · exact .inl ⟨_, run_bind_of_error (transferring_of_error he)⟩
  · exact .inr ⟨stream, hget, .inr ⟨hpos, s', hmoved,
      run_bind_of_ok (transferring_of_ok hok)⟩⟩

/-- The caller is one of the two parties of a stream. -/
def IsParty (caller : List UInt8) (stream : Stream) : Prop :=
  caller = stream.payer ∨ caller = stream.payee

theorem notParty_iff :
    (equalAddress caller stream.payer = false ∧ equalAddress caller stream.payee = false) ↔
      ¬ IsParty caller stream := by
  rw [IsParty, not_or, ← equalAddress_iff, ← equalAddress_iff, Bool.not_eq_true, Bool.not_eq_true]

theorem close_after_payout {s s' : State} (hlive : (liveStream streamID).run s = (s, .ok stream))
    (hparty : IsParty caller stream)
    (hpay : (payOutToPayee k env.first (.ofBytes stream.payee) stream.token
      (streamAccrued stream now)).run s = (s', .ok ())) :
    (close k env now streamID caller).run s =
      (do
        transferring .transfer (refundToPayer k env.second (.ofBytes stream.payer)
          stream.token (unspentCap (stream.addSettled (streamAccrued stream now))))
        dropStream (stream.addSettled (streamAccrued stream now))
        return (streamAccrued stream now,
          unspentCap (stream.addSettled (streamAccrued stream now))) :
        Action State Err (Int × Int)).run s' := by
  unfold close
  rw [run_bind_of_ok hlive, run_rejectIf_bind,
    if_neg (mt notParty_iff.mp (not_not.mpr hparty)),
    run_bind_of_ok (transferring_of_ok hpay)]

theorem close_cases (streamID : UInt64) (caller : List UInt8) :
    (∃ e, (close k env now streamID caller).run s = (s, .error e)) ∨
      ∃ stream s', getStream s.store streamID = some stream ∧ stream.active ∧
        IsParty caller stream ∧
        Moved env.first stream.token k.moduleAccount (.ofBytes stream.payee)
          (streamAccrued stream now) s s' ∧
        ((Declined env.second stream.token k.moduleAccount (.ofBytes stream.payer)
              (unspentCap (stream.addSettled (streamAccrued stream now)))
              (s'.assets (.ofBytes stream.token) k.moduleAccount) ∧
            ∃ e, (close k env now streamID caller).run s = (s', .error e)) ∨
          ∃ s'', Moved env.second stream.token k.moduleAccount (.ofBytes stream.payer)
              (unspentCap (stream.addSettled (streamAccrued stream now))) s' s'' ∧
            (close k env now streamID caller).run s =
              (s''.withStore fun store =>
                  deleteStream store (stream.addSettled (streamAccrued stream now)),
                .ok (streamAccrued stream now,
                  unspentCap (stream.addSettled (streamAccrued stream now))))) := by
  rcases liveStream_cases s streamID with ⟨e, he⟩ | ⟨stream, hget, hactive, hlive⟩
  · exact .inl ⟨e, run_bind_of_error he⟩
  by_cases hparty : IsParty caller stream
  case neg =>
    refine .inl ⟨.notParty caller streamID, ?_⟩
    unfold close
    rw [run_bind_of_ok hlive, run_rejectIf_bind, if_pos (notParty_iff.mpr hparty)]
  rcases moveToken_outcome env.first .erc20Payout stream.token k.moduleAccount
    (.ofBytes stream.payee) (streamAccrued stream now) s with
    ⟨-, e, he⟩ | ⟨s', hmoved, hok⟩
  · refine .inl ⟨.transfer e, ?_⟩
    unfold close
    rw [run_bind_of_ok hlive, run_rejectIf_bind,
      if_neg (mt notParty_iff.mp (not_not.mpr hparty))]
    exact run_bind_of_error (transferring_of_error he)
  refine .inr ⟨stream, s', hget, hactive, hparty, hmoved, ?_⟩
  rw [close_after_payout k env now hlive hparty hok]
  rcases moveToken_outcome env.second .erc20Payout stream.token k.moduleAccount
    (.ofBytes stream.payer) (unspentCap (stream.addSettled (streamAccrued stream now))) s'
    with ⟨hdecl, _, he⟩ | ⟨s'', hmoved', hok'⟩
  · exact .inl ⟨hdecl, _, run_bind_of_error (transferring_of_error he)⟩
  · exact .inr ⟨s'', hmoved', run_bind_of_ok (transferring_of_ok hok')⟩

section

variable {s} {streamID : UInt64} {stream : Stream} (caller : List UInt8)
  (hget : getStream s.store streamID = some stream) (hactive : stream.active)
  (hparty : IsParty caller stream)
  (hpay : Accepts env.first stream.token k.moduleAccount (.ofBytes stream.payee)
    (streamAccrued stream now))
  (hpaid : (streamAccrued stream now).toNat ≤
    s.assets (.ofBytes stream.token) k.moduleAccount)

include hget hactive hparty hpay hpaid

theorem close_of_accepts
    (hback : Accepts env.second stream.token k.moduleAccount (.ofBytes stream.payer)
      (unspentCap (stream.addSettled (streamAccrued stream now))))
    (hrefund : (unspentCap (stream.addSettled (streamAccrued stream now))).toNat ≤
      (s.pay (.ofBytes stream.token) k.moduleAccount (.ofBytes stream.payee)
        (streamAccrued stream now).toNat).assets (.ofBytes stream.token)
          k.moduleAccount) :
    (close k env now streamID caller).run s =
      (((s.pay (.ofBytes stream.token) k.moduleAccount (.ofBytes stream.payee)
          (streamAccrued stream now).toNat).pay (.ofBytes stream.token) k.moduleAccount
          (.ofBytes stream.payer)
          (unspentCap (stream.addSettled (streamAccrued stream now))).toNat).withStore
        fun store => deleteStream store (stream.addSettled (streamAccrued stream now)),
        .ok (streamAccrued stream now,
          unspentCap (stream.addSettled (streamAccrued stream now)))) := by
  rw [close_after_payout k env now (liveStream_of_active hget hactive) hparty
    (moveToken_of_accepts _ hpay hpaid)]
  exact run_bind_of_ok (transferring_of_ok (moveToken_of_accepts _ hback hrefund))

theorem close_of_declined_refund
    (hback : Declined env.second stream.token k.moduleAccount (.ofBytes stream.payer)
      (unspentCap (stream.addSettled (streamAccrued stream now)))
      ((s.pay (.ofBytes stream.token) k.moduleAccount (.ofBytes stream.payee)
        (streamAccrued stream now).toNat).assets (.ofBytes stream.token)
          k.moduleAccount)) :
    ∃ e, (close k env now streamID caller).run s =
      (s.pay (.ofBytes stream.token) k.moduleAccount (.ofBytes stream.payee)
        (streamAccrued stream now).toNat, .error e) := by
  rw [close_after_payout k env now (liveStream_of_active hget hactive) hparty
    (moveToken_of_accepts _ hpay hpaid)]
  obtain ⟨_, he⟩ := moveToken_of_declined .erc20Payout hback
  exact ⟨_, run_bind_of_error (transferring_of_error he)⟩

end

theorem updateRate_cases (streamID : UInt64) (caller : List UInt8) (newRate : Int) :
    (∃ e, (updateRate k env now streamID caller newRate).run s = (s, .error e)) ∨
      ∃ stream s', getStream s.store streamID = some stream ∧ caller = stream.payer ∧
        0 < newRate ∧
        Moved env.first stream.token k.moduleAccount (.ofBytes stream.payee)
          (streamAccrued stream now) s s' ∧
        (updateRate k env now streamID caller newRate).run s =
          (s'.withStore fun store => setStream store
              { stream.addSettled (streamAccrued stream now) with
                ratePerSecond := formatInt newRate, startTime := now },
            .ok (streamAccrued stream now)) := by
  unfold updateRate
  rcases liveStream_cases s streamID with ⟨e, he⟩ | ⟨stream, hget, -, hlive⟩
  · exact .inl ⟨e, run_bind_of_error he⟩
  rw [run_bind_of_ok hlive]
  rw [run_rejectIf_bind]
  split
  · exact .inl ⟨_, rfl⟩
  rename_i hpayer
  rw [Bool.not_eq_false, equalAddress_iff] at hpayer
  rw [run_rejectIf_bind]
  split
  · exact .inl ⟨_, rfl⟩
  rcases moveToken_outcome env.first .erc20Payout stream.token k.moduleAccount
    (.ofBytes stream.payee) (streamAccrued stream now) s with
    ⟨-, _, he⟩ | ⟨s', hmoved, hok⟩
  · exact .inl ⟨_, run_bind_of_error (transferring_of_error he)⟩
  · exact .inr ⟨stream, s', hget, hpayer, by omega, hmoved,
      run_bind_of_ok (transferring_of_ok hok)⟩

end HyperPax.Streams
