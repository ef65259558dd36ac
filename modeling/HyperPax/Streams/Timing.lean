/-
  Streams/Timing.lean --- how often and when a stream is settled does not matter.

  `entitled` is what the payee of a stream has earned up to a time, computed over
  the integers without a word in sight.  A settlement pays the part of it that has not
  been paid yet; since it only grows, the settled amount never gets ahead of it, and the
  final payout of a close brings the total to exactly the entitlement.
-/
import HyperPax.Streams.Keeper

set_option autoImplicit false

namespace HyperPax.Streams

open Lib State Ledger Address

/-! ## Entitlement -/

/-- `min (rate * (min t stop - start)⁺) cap`, with no stop when the stop time is
zero. -/
def entitled (s : Stream) (t : UInt64) : Int :=
  let until_ : Nat := if s.stopTime = 0 then t.toNat else min t.toNat s.stopTime.toNat
  min (parseAmount s.ratePerSecond * ((until_ - s.startTime.toNat : Nat) : Int))
    (parseAmount s.cap)

variable (s : Stream) (t : UInt64)

theorem effectiveNow_toNat : (effectiveNow s t).toNat =
      if s.stopTime = 0 then t.toNat else min t.toNat s.stopTime.toNat := by
  unfold effectiveNow
  by_cases hstop : s.stopTime = 0
  · simp [hstop]
  by_cases hlt : s.stopTime < t
  · have hle : s.stopTime.toNat ≤ t.toNat := (UInt64.lt_iff_toNat_lt.mp hlt).le
    rw [if_pos ⟨hstop, hlt⟩, if_neg hstop, Nat.min_eq_right hle]
  have hle : t.toNat ≤ s.stopTime.toNat :=
    Nat.not_lt.mp fun hn => hlt (UInt64.lt_iff_toNat_lt.mpr hn)
  rw [if_neg (fun h => hlt h.2), if_neg hstop, Nat.min_eq_left hle]

theorem entitled_nonneg : 0 ≤ entitled s t := by
  refine le_min (mul_nonneg (parseAmount_nonneg _) ?_) (parseAmount_nonneg _)
  exact Int.natCast_nonneg _

theorem entitled_le_cap : entitled s t ≤ parseAmount s.cap :=
  min_le_right _ _

theorem entitled_mono {t t' : UInt64} (h : t ≤ t') : entitled s t ≤ entitled s t' := by
  have hnat : t.toNat ≤ t'.toNat := UInt64.le_iff_toNat_le.mp h
  refine min_le_min_right _ (mul_le_mul_of_nonneg_left ?_ (parseAmount_nonneg _))
  refine Int.ofNat_le.mpr (Nat.sub_le_sub_right ?_ _)
  split
  · exact hnat
  · exact min_le_min_right _ hnat

theorem streamAccrued_eq : streamAccrued s t = max 0 (entitled s t - parseAmount s.settled) := by
  have hsettled := parseAmount_nonneg s.settled
  have hcap := parseAmount_nonneg s.cap
  have heff := effectiveNow_toNat s t
  unfold streamAccrued entitled
  dsimp only
  rw [← heff]
  split
  · rename_i hle
    have hzero : (effectiveNow s t).toNat - s.startTime.toNat = 0 :=
      Nat.sub_eq_zero_of_le (UInt64.le_iff_toNat_le.mp hle)
    rw [hzero, Nat.cast_zero, mul_zero, min_eq_left hcap]
    omega
  rename_i hlt
  have hle : s.startTime ≤ effectiveNow s t := UInt64.le_of_lt (UInt64.not_le.mp hlt)
  have hearned : earned s t = min (parseAmount s.ratePerSecond *
      (((effectiveNow s t).toNat - s.startTime.toNat : Nat) : Int)) (parseAmount s.cap) := by
    unfold earned
    rw [UInt64.toNat_sub_of_le _ _ hle]
    dsimp only
    split <;> omega
  rw [hearned]
  split <;> omega

theorem entitled_congr {s s' : Stream} (h : s' = { s with settled := s'.settled }) (t : UInt64) :
    entitled s' t = entitled s t := by
  rw [h]
  rfl

/-! ## A stream from its opening to its close -/

/-- A stream as `Open` leaves it: stored and active under its id, nothing settled, its
parties distinct accounts, and its cap in the pool. -/
structure Opened (k : Keeper) (s : State) (st : Stream) (token payer payee : Address) : Prop where
  stored : getStream s.store st.id = some st
  active : st.active
  token_eq : st.token = token.bytes
  payer_eq : st.payer = payer.bytes
  payee_eq : st.payee = payee.bytes
  distinct : payer ≠ payee
  payer_ne : payer ≠ k.moduleAccount
  payee_ne : payee ≠ k.moduleAccount
  unsettled : parseAmount st.settled = 0
  funded : (parseAmount st.cap).toNat ≤ s.assets token k.moduleAccount

/-- The token contract, if there is one, never answers `false`: a transfer is made or
reverts. -/
def Answers.MovesOrReverts (ans : Answers) : Prop :=
  ∀ (token src dst : Address) (n : Nat), ans.erc20 token src dst n ≠ .returnsFalse

/-- Every transfer of the token out of the module account is accepted. -/
def Answers.Cooperates (ans : Answers) (k : Keeper) (token : Address) : Prop :=
  ∀ (dst : Address) (n : Nat),
    if isNativeToken token.bytes then ans.refuses k.moduleAccount dst n = false
    else ans.erc20 token k.moduleAccount dst n = .moves

/-- The calls of `Settle`, each in its own environment and at its own time, whether they
succeed or not. -/
def settleAll (k : Keeper) (id : UInt64) (calls : List (Env × UInt64)) (s : State) : State :=
  calls.foldl (fun s call => ((settle k call.1 call.2 id).run s).1) s

/-- Where the settlements have got to by time `t`: the record has changed only in its
settled amount, which is at most the entitlement, and exactly that amount has moved
from the module account to the payee. -/
structure SettledUpTo (k : Keeper) (s₀ : State) (st : Stream) (token payer payee : Address)
    (t : UInt64) (s : State) (st' : Stream) : Prop where
  stored : getStream s.store st.id = some st'
  terms : st' = { st with settled := st'.settled }
  le_entitled : parseAmount st'.settled ≤ entitled st t
  module_balance : (s.assets token k.moduleAccount : Int) =
    s₀.assets token k.moduleAccount - parseAmount st'.settled
  payee_balance : (s.assets token payee : Int) = s₀.assets token payee + parseAmount st'.settled
  payer_balance : s.assets token payer = s₀.assets token payer

namespace SettledUpTo

variable {k : Keeper} {s₀ s : State} {st st' : Stream} {token payer payee : Address}
  {t t' : UInt64}

theorem start (h : Opened k s₀ st token payer payee) (t : UInt64) :
    SettledUpTo k s₀ st token payer payee t s₀ st where
  stored := h.stored
  terms := rfl
  le_entitled := by
    rw [h.unsettled]
    exact entitled_nonneg st t
  module_balance := by rw [h.unsettled, sub_zero]
  payee_balance := by rw [h.unsettled, add_zero]
  payer_balance := rfl

theorem later (hs : SettledUpTo k s₀ st token payer payee t s st') (hle : t ≤ t') :
    SettledUpTo k s₀ st token payer payee t' s st' :=
  ⟨hs.stored, hs.terms, hs.le_entitled.trans (entitled_mono st hle), hs.module_balance,
    hs.payee_balance, hs.payer_balance⟩

section

variable (h : Opened k s₀ st token payer payee)
  (hs : SettledUpTo k s₀ st token payer payee t s st')

include h hs

theorem payee_eq : st'.payee = payee.bytes := by
  rw [hs.terms]
  exact h.payee_eq

theorem token_eq : st'.token = token.bytes := by
  rw [hs.terms]
  exact h.token_eq

end

theorem settled_add_accrued (hs : SettledUpTo k s₀ st token payer payee t s st') :
    parseAmount st'.settled + streamAccrued st' t = entitled st t := by
  have hle := hs.le_entitled
  rw [streamAccrued_eq, entitled_congr hs.terms]
  omega

/-- One settlement, successful or not. -/
theorem settle (h : Opened k s₀ st token payer payee)
    (hs : SettledUpTo k s₀ st token payer payee t s st') {env : Env}
    (henv : env.first.MovesOrReverts) :
    ∃ st'', SettledUpTo k s₀ st token payer payee t ((settle k env t st.id).run s).1 st'' := by
  rcases settle_cases k env t s st.id with ⟨_, he⟩ | ⟨st₁, hget, hcase⟩
  · rw [he]
    exact ⟨st', hs⟩
  obtain rfl : st' = st₁ := Option.some.inj (hs.stored.symm.trans hget)
  rcases hcase with ⟨-, hrun⟩ | ⟨hpos, _, hmoved, hrun⟩
  · rw [hrun]
    exact ⟨st', hs⟩
  rw [hrun, token_eq h hs, payee_eq h hs, ofBytes_bytes] at *
  obtain ⟨hsilent, -⟩ | ⟨-, hcov, rfl⟩ := hmoved
  · exact absurd hsilent.2.2 (henv _ _ _ _)
  rw [ofBytes_bytes] at hcov ⊢
  have hsettled := addSettled_settled st' hpos.le
  have htotal := settled_add_accrued hs
  refine ⟨st'.addSettled (streamAccrued st' t), ?_, ?_, ?_, ?_, ?_, ?_⟩
  · rw [withStore_store, pay_store, getStream_setStream, addSettled_id,
      if_pos (by rw [hs.terms])]
  · rw [Stream.addSettled, if_pos hpos, hs.terms]
  · rw [hsettled]
    exact htotal.le
  · rw [withStore_assets, pay_assets_same, transfer_src _ _ h.payee_ne.symm, hsettled]
    have hbal := hs.module_balance
    omega
  · rw [withStore_assets, pay_assets_same, transfer_dst _ _ h.payee_ne.symm, hsettled]
    have hbal := hs.payee_balance
    omega
  · rw [withStore_assets, pay_assets_same, transfer_other _ _ h.payer_ne h.distinct]
    exact hs.payer_balance

theorem settleAll (h : Opened k s₀ st token payer payee) (calls : List (Env × UInt64))
    (hs : SettledUpTo k s₀ st token payer payee t s st')
    (hsorted : (t :: (calls.map Prod.snd ++ [t'])).Pairwise (· ≤ ·))
    (henv : ∀ call ∈ calls, call.1.first.MovesOrReverts) :
    ∃ st'', SettledUpTo k s₀ st token payer payee t' (settleAll k st.id calls s) st'' := by
  induction calls generalizing s st' t with
  | nil =>
    have hle : t ≤ t' := List.rel_of_pairwise_cons hsorted (by simp)
    exact ⟨st', hs.later hle⟩
  | cons call _ ih =>
    have hle : t ≤ call.2 := List.rel_of_pairwise_cons hsorted (by simp)
    obtain ⟨_, hs₁⟩ := settle h (hs.later hle) (henv call List.mem_cons_self)
    exact ih hs₁ hsorted.of_cons fun c hc => henv c (List.mem_cons_of_mem _ hc)

end SettledUpTo

/-- Settle a stream any number of times, by anyone, at any non-decreasing times, and
close it at time `T`: the payee has received exactly the entitlement at `T` and the
payer the rest of the cap.  Neither depends on the settlements. -/
theorem close_after_settlements (k : Keeper) (s₀ : State) (st : Stream)
    (token payer payee : Address) (calls : List (Env × UInt64)) (T : UInt64) (env : Env)
    (caller : Address) (h : Opened k s₀ st token payer payee)
    (hsorted : (calls.map Prod.snd ++ [T]).Pairwise (· ≤ ·))
    (hcalls : ∀ call ∈ calls, call.1.first.MovesOrReverts) (hpay : env.first.Cooperates k token)
    (hback : env.second.Cooperates k token) (hparty : caller = payer ∨ caller = payee) :
    ∃ s payout, (close k env T st.id caller.bytes).run (settleAll k st.id calls s₀) =
        (s, .ok (payout, parseAmount st.cap - entitled st T)) ∧
      (s.assets token payee : Int) = s₀.assets token payee + entitled st T ∧
      (s.assets token payer : Int) = s₀.assets token payer + (parseAmount st.cap - entitled st T) ∧
      getStream s.store st.id = none := by
  have hzero : ((0 : UInt64) :: (calls.map Prod.snd ++ [T])).Pairwise (· ≤ ·) :=
    List.pairwise_cons.mpr ⟨fun t _ => UInt64.le_iff_toNat_le.mpr (Nat.zero_le _), hsorted⟩
  obtain ⟨st', hs⟩ := (SettledUpTo.start h 0).settleAll h calls hzero hcalls
  have htotal := hs.settled_add_accrued
  have hnonneg := streamAccrued_nonneg st' T
  have hcapLe := entitled_le_cap st T
  have hid : st'.id = st.id := by rw [hs.terms]
  have hcap : st'.cap = st.cap := by rw [hs.terms]
  have htoken := SettledUpTo.token_eq h hs
  have hpayee : .ofBytes st'.payee = payee := by rw [SettledUpTo.payee_eq h hs, ofBytes_bytes]
  have hpayer : .ofBytes st'.payer = payer := by rw [hs.terms, h.payer_eq, ofBytes_bytes]
  have hrefund : unspentCap (st'.addSettled (streamAccrued st' T)) =
      parseAmount st.cap - entitled st T := by
    rw [unspentCap_addSettled hnonneg (by rw [hcap]; omega), hcap]
    omega
  have haccepts : ∀ {ans : Answers}, ans.Cooperates k token →
      ∀ dst n, Accepts ans st'.token k.moduleAccount dst n := by
    intro _ hans dst n
    refine .inr ?_
    rw [htoken, ofBytes_bytes]
    exact hans dst n.toNat
  -- the pool still holds the rest of the cap
  have hmodule := hs.module_balance
  have hfunded := h.funded
  have hpaid : (streamAccrued st' T).toNat ≤
      (settleAll k st.id calls s₀).assets token k.moduleAccount := by
    omega
  have hleft : (unspentCap (st'.addSettled (streamAccrued st' T))).toNat ≤
      ((settleAll k st.id calls s₀).pay token k.moduleAccount (.ofBytes st'.payee)
        (streamAccrued st' T).toNat).assets token k.moduleAccount := by
    rw [hrefund, hpayee, pay_assets_same, transfer_src _ _ h.payee_ne.symm]
    omega
  have htoken' : .ofBytes st'.token = token := by rw [htoken, ofBytes_bytes]
  have hclose := close_of_accepts k env T (s := settleAll k st.id calls s₀) caller.bytes
    hs.stored (by rw [hs.terms]; exact h.active) ?_
    (haccepts hpay _ _) (by rw [htoken']; exact hpaid) (haccepts hback _ _)
    (by rw [htoken']; exact hleft)
  · rw [htoken', hrefund, hpayee, hpayer] at hclose
    refine ⟨_, _, hclose, ?_, ?_, ?_⟩
    · rw [withStore_assets, pay_assets_same,
        transfer_other _ _ h.payee_ne h.distinct.symm, pay_assets_same,
        transfer_dst _ _ h.payee_ne.symm]
      have hbal := hs.payee_balance
      omega
    · rw [withStore_assets, pay_assets_same, transfer_dst _ _ h.payer_ne.symm, pay_assets_same,
        transfer_other _ _ h.payer_ne h.distinct]
      have hbal := hs.payer_balance
      omega
    · rw [withStore_store, getStream_deleteStream, addSettled_id, if_pos hid]
  · unfold IsParty
    rw [SettledUpTo.payee_eq h hs, hs.terms, h.payer_eq]
    exact hparty.imp (congrArg Address.bytes) (congrArg Address.bytes)

namespace TwoSettlements

def keeper : Keeper := ⟨.ofNat 100⟩
def payer : Address := .ofNat 1
def payee : Address := .ofNat 2
def token : Address := .ofNat 7

/-- Three units per second from time 1000 to time 1100, at most 250. -/
def stream : Stream where
  id := 1
  payer := payer.bytes
  payee := payee.bytes
  token := token.bytes
  ratePerSecond := "3"
  cap := "250"
  startTime := 1000
  stopTime := 1100
  settled := "0"
  active := true

def state : State where
  store := setStream ∅ stream
  assets t a := if t = token ∧ a = keeper.moduleAccount then 250 else 0

def answers : Answers := ⟨fun _ _ _ => false, fun _ _ _ _ => .moves⟩

def env : Env := ⟨answers, answers⟩

theorem opened : Opened keeper state stream token payer payee where
  stored := by decide +kernel
  active := rfl
  token_eq := rfl
  payer_eq := rfl
  payee_eq := rfl
  distinct := by decide
  payer_ne := by decide
  payee_ne := by decide
  unsettled := rfl
  funded := by decide +kernel

theorem answers_movesOrReverts : answers.MovesOrReverts := by
  intro _ _ _ _
  simp [answers]

end TwoSettlements

open TwoSettlements in
/-- Settled at 1010 and again at 1060, closed at 1070: 210 to the payee, 40 back. -/
theorem close_after_two_settlements : entitled stream 1070 = 210 ∧
      ∃ s payout, (close keeper env 1070 1 payer.bytes).run
          (settleAll keeper 1 [(env, 1010), (env, 1060)] state) =
          (s, .ok (payout, parseAmount stream.cap - entitled stream 1070)) := by
  refine ⟨by decide +kernel, ?_⟩
  have hcalls : ∀ call ∈ [(env, (1010 : UInt64)), (env, 1060)], call.1.first.MovesOrReverts := by
    intro _ hcall
    simp only [List.mem_cons, List.not_mem_nil, or_false] at hcall
    rcases hcall with rfl | rfl <;> exact answers_movesOrReverts
  have hans : answers.Cooperates keeper token := fun dst n => rfl
  obtain ⟨s, payout, hrun, -⟩ := close_after_settlements keeper state stream token payer payee
    [(env, 1010), (env, 1060)] 1070 env payer opened (by decide) hcalls hans hans (.inl rfl)
  exact ⟨s, payout, hrun⟩

/-- A token that answers `false` to the first transfer. -/
def TwoSettlements.silentEnv : Env := ⟨⟨fun _ _ _ => false, fun _ _ _ _ => .returnsFalse⟩, answers⟩

open TwoSettlements in
/-- The settlement at 1010 is recorded although the token did not pay it: of 210 the payee gets 180,
and 30 stay with the module. -/
theorem silent_settlement_lost :
    let r :=
      (close keeper env 1070 1 payer.bytes).run (settleAll keeper 1 [(silentEnv, 1010)] state)
    r.2 = .ok (180, 40) ∧ entitled stream 1070 = 210 ∧ r.1.assets token payee = 180 ∧
      r.1.assets token payer = 40 ∧ r.1.assets token keeper.moduleAccount = 30 := by
  refine ⟨?_, ?_, ?_, ?_, ?_⟩ <;> decide +kernel

end HyperPax.Streams
