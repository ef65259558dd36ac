/-
  Cosmos/Payments.lean --- what a call of the precompiles pays, and what it adjusts.

  A call of the staking, distribution or ICS-20 precompile pays coins in the bank, behind
  the StateDB's back, and adjusts at most one balance of the StateDB.  What it pays can
  be read off the stores before the call (`payments`), and so can what it adjusts
  (`adjustment`).

  What the message servers pay is assumed, as it is documented: a change of a delegation
  first pays its pending rewards to the delegator's withdraw address, delegating moves the
  amount to the pool of the validator's status, unbonding moves it between the two pools,
  removing a validator pays out its commission, a transfer is escrowed or, for a voucher,
  burned.  How shares are counted is left open: the environment has the answers.
  `execute_ok` says that a call that succeeds has paid and adjusted exactly that.
-/
import HyperPax.Cosmos.Handlers
import HyperPax.Evm.Balances

set_option autoImplicit false

namespace HyperPax.Cosmos

open Lib Action Function List

/-! ## What a call pays -/

section

variable (k : Keeper) (env : Env) (st : Staking)

/-- An amount of bonded tokens, in the EVM denomination. -/
def nativeStake (amount : Nat) : Nat :=
  if env.bondDenom = env.evmDenom then amount else 0

/-- `SendCoinsFromModuleToAccount` out of the distribution account; nothing is sent when
there is nothing to send. -/
def distribute (dst : Address) (coins : Coins) : List (Payment Address) :=
  if isZero coins then [] else [⟨some k.distribution, some dst, amountOf coins env.evmDenom⟩]

/-- The pool that holds the tokens of a validator. -/
def pool : Status → Address
  | .bonded => k.bondedPool
  | .unbonding => k.notBondedPool
  | .unbonded => k.notBondedPool

/-- Tokens that go from one status to another change pools if the pools differ. -/
def repool (src dst : Status) (amount : Nat) : List (Payment Address) :=
  if src = .bonded ↔ dst = .bonded then []
  else [⟨some (pool k src), some (pool k dst), nativeStake env amount⟩]

/-- The pending rewards of a delegation, to the delegator's withdraw address. -/
def rewardPayments (delegator validator : Address) : List (Payment Address) :=
  match st.pending delegator validator with
  | some rewards => distribute k env (st.withdrawAddr delegator) rewards
  | none => []

/-- The commission of a validator that goes away. -/
def removalPayments (validator : Address) : List (Payment Address) :=
  if env.emptiesValidator ∧ st.status validator = .unbonded then
    distribute k env (st.withdrawAddr validator) (st.commission validator)
  else []

/-- What a transfer of a token out of the chain moves: a voucher is burned, anything else
is kept in escrow. -/
def sendTransfer (msg : MsgTransfer) : List (Payment Address) :=
  if msg.token.denom = env.evmDenom then
    if env.isVoucher msg.sourcePort msg.sourceChannel msg.token.denom then
      [⟨some msg.sender, some k.transferModule, msg.token.amount⟩,
        ⟨some k.transferModule, none, msg.token.amount⟩]
    else
      [⟨some msg.sender, some (k.escrowAddress msg.sourcePort msg.sourceChannel),
        msg.token.amount⟩]
  else []

/-- The payments of a transfer. -/
def transferPayments (bank : Ledger) (msg : MsgTransfer) : List (Payment Address) :=
  (if Converts env bank msg then env.conversion else []) ++
    sendTransfer k env (resolveDenom env msg)

/-- The payments of a method, given the stores it starts from. -/
def payments (bank : Ledger) : Method → List (Payment Address)
  | .delegate delegator validator amount =>
    rewardPayments k env st delegator validator ++
      [⟨some delegator, some (pool k (st.status validator)), nativeStake env amount⟩]
  | .undelegate delegator validator _ =>
    rewardPayments k env st delegator validator ++ removalPayments k env st validator ++
      repool k env (st.status validator) .unbonding env.returned
  | .redelegate delegator validatorSrc validatorDst _ =>
    rewardPayments k env st delegator validatorSrc ++ removalPayments k env st validatorSrc ++
      (rewardPayments k env st delegator validatorDst ++
        repool k env (st.status validatorSrc) (st.status validatorDst) env.returned)
  | .cancelUnbondingDelegation delegator validator amount _ =>
    rewardPayments k env st delegator validator ++
      repool k env .unbonding (st.status validator) amount
  | .claimRewards delegator maxRetrieve =>
    (st.delegatorValidators delegator maxRetrieve).flatMap (rewardPayments k env st delegator)
  | .withdrawDelegatorRewards delegator validator => rewardPayments k env st delegator validator
  | .withdrawValidatorCommission validator =>
    distribute k env (st.withdrawAddr validator) (st.commission validator)
  | .transfer msg => transferPayments k env bank msg

/-- The first coin of the rewards of a delegation, whatever its denomination. -/
def firstReward (delegator validator : Address) : Nat :=
  match st.pending delegator validator with
  | some rewards => if isZero rewards then 0 else (rewards.head?.map Coin.amount).getD 0
  | none => 0

/-- What a call adds to the caller's balance in the StateDB, if it adjusts it at all. -/
def adjustment (c : Call) : Option Int :=
  match c.method with
  | .delegate delegator _ amount => if c.caller = delegator then some (-amount) else none
  | .withdrawDelegatorRewards delegator validator =>
    if c.caller = delegator then some (firstReward st delegator validator) else none
  | .transfer msg =>
    if c.caller = msg.sender ∧ (resolveDenom env msg).token.denom = env.bondDenom then
      some (-msg.token.amount)
    else none
  | _ => none

end

/-! ## Payments between two states -/

/-- `b'` comes from `b` by the payments `ps`.  A recipient has an account afterwards. -/
structure Paid (ps : List (Payment Address)) (b b' : Evm.Backend) : Prop where
  bank : ∀ a, (b'.bank a : Int) = b.bank a + net ps a
  accounts : ∀ a, (b'.accounts a).isSome ↔ (b.accounts a).isSome ∨ Receives ps a

namespace Paid

variable {ps qs : List (Payment Address)} {b b' b'' : Evm.Backend}

theorem nil : Paid [] b b := ⟨by simp, by simp⟩

theorem append (h₁ : Paid ps b b') (h₂ : Paid qs b' b'') : Paid (ps ++ qs) b b'' := by
  constructor
  · intro a
    rw [h₂.bank, h₁.bank, net_append, add_assoc]
  · intro _
    rw [h₂.accounts, h₁.accounts, receives_append, or_assoc]

end Paid

theorem isSome_opened (accounts : Address → Option Evm.AuthAccount) (dst a : Address) :
    (update accounts dst (some ((accounts dst).getD .fresh)) a).isSome ↔
      (accounts a).isSome ∨ dst = a := by
  by_cases ha : a = dst
  · subst ha
    simp
  · simp [update_of_ne ha, Ne.symm ha]

variable {n : Nat} {b b' : Evm.Backend} {src dst : Address} {env : Env} {s s' : Context}

theorem paid_send {refuses : Refusal} (h : (Evm.send refuses src dst n).run b = (b', .ok ())) :
    Paid [⟨some src, some dst, n⟩] b b' := by
  obtain ⟨_, ⟨⟩, hsend, hopen⟩ := run_bind_ok.mp h
  obtain ⟨_, hl, rfl⟩ := run_zoom_ok.mp hsend
  rcases sendCoins_cases refuses src dst n b.bank with ⟨-, _, he⟩ | ⟨-, hle, hok⟩
  · rw [he] at hl
    cases hl
  rw [hok, Prod.mk.injEq] at hl
  rw [run_modify, Prod.mk.injEq] at hopen
  obtain ⟨rfl, -⟩ := hl
  obtain ⟨rfl, -⟩ := hopen
  constructor
  · intro a
    rw [Ledger.transfer_int _ dst a hle, net_cons, net_nil, Payment.net]
    simp only [Option.some.injEq, eq_comm (b := a)]
    omega
  · intro _
    rw [isSome_opened, receives_singleton, Option.some.injEq]

theorem paid_mint (h : (Evm.mintCoins ⟨dst⟩ n).run b = (b', .ok ())) : Paid [⟨none, some dst, n⟩] b
      { b' with accounts := update b'.accounts dst (some ((b'.accounts dst).getD .fresh)) } := by
  rw [Evm.mintCoins, run_modify, Prod.mk.injEq] at h
  obtain ⟨rfl, -⟩ := h
  constructor
  · intro a
    by_cases ha : a = dst <;> simp [Payment.net, ha, Ne.symm]
  · intro _
    rw [isSome_opened, receives_singleton, Option.some.injEq]

theorem paid_burn (h : (Evm.burnCoins ⟨src⟩ n).run b = (b', .ok ())) :
    Paid [⟨some src, none, n⟩] b b' := by
  rw [Evm.burnCoins, run_gets_bind] at h
  obtain ⟨hle, h⟩ := rejectIf_bind_ok.mp h
  rw [run_modify, Prod.mk.injEq] at h
  obtain ⟨rfl, -⟩ := h
  dsimp only at hle
  constructor
  · intro a
    by_cases ha : a = src
    · subst ha
      have hsub : ((b.bank a - n : Nat) : Int) = b.bank a - n := by omega
      simp [Payment.net, hsub, Int.sub_eq_add_neg]
    · simp [Payment.net, update_of_ne ha, Ne.symm ha]
  · intro _
    simp [receives_singleton]

/-- `s'` comes from `s` by the payments `ps`; the StateDB has not noticed. -/
structure Pays (ps : List (Payment Address)) (s s' : Context) : Prop where
  paid : Paid ps s.backend s'.backend
  db : s'.db = s.db

namespace Pays

variable {ps qs : List (Payment Address)} {s s' s'' : Context}

theorem nil (hbackend : s'.backend = s.backend) (hdb : s'.db = s.db) : Pays [] s s' :=
  ⟨hbackend ▸ .nil, hdb⟩

theorem append (h₁ : Pays ps s s') (h₂ : Pays qs s' s'') : Pays (ps ++ qs) s s'' :=
  ⟨h₁.paid.append h₂.paid, h₂.db.trans h₁.db⟩

theorem of_same (h : Pays ps s s') (hbackend : s''.backend = s'.backend) (hdb : s''.db = s'.db) :
    Pays ps s s'' :=
  ⟨hbackend ▸ h.paid, hdb.trans h.db⟩

end Pays

theorem pay_ok {p : Payment Address} (h : (pay env p).run s = (s', .ok ())) :
    Pays [p] s s' ∧ s'.staking = s.staking := by
  obtain ⟨_ | _, _ | _, n⟩ := p
  · have hnet : Paid [⟨none, none, n⟩] s.backend s.backend :=
      ⟨by simp [Payment.net], by simp [receives_singleton]⟩
    have hsame : s = s' := (Prod.mk.inj h).1
    subst hsame
    exact ⟨⟨hnet, rfl⟩, rfl⟩
  · simp only [pay, onBackend] at h
    obtain ⟨b, hb, rfl⟩ := run_zoom_ok.mp h
    obtain ⟨_, ⟨⟩, hmint, hopen⟩ := run_bind_ok.mp hb
    rw [run_modify, Prod.mk.injEq] at hopen
    obtain ⟨rfl, -⟩ := hopen
    exact ⟨⟨paid_mint hmint, rfl⟩, rfl⟩
  · obtain ⟨b, hb, rfl⟩ := run_zoom_ok.mp h
    exact ⟨⟨paid_burn hb, rfl⟩, rfl⟩
  · obtain ⟨_, hb, rfl⟩ := run_zoom_ok.mp h
    exact ⟨⟨paid_send hb, rfl⟩, rfl⟩

theorem payAll_ok {ps : List (Payment Address)} (h : (payAll env ps).run s = (s', .ok ())) :
    Pays ps s s' ∧ s'.staking = s.staking := by
  induction ps generalizing s with
  | nil =>
    rw [payAll, run_pure, Prod.mk.injEq] at h
    obtain ⟨rfl, -⟩ := h
    exact ⟨.nil rfl rfl, rfl⟩
  | cons _ _ ih =>
    rw [payAll] at h
    obtain ⟨_, ⟨⟩, hp, hps⟩ := run_bind_ok.mp h
    obtain ⟨hpaid, hstaking⟩ := pay_ok hp
    obtain ⟨hrest, hstaking'⟩ := ih hps
    exact ⟨hpaid.append hrest, hstaking'.trans hstaking⟩

/-! ## What the modules pay -/

section

variable {k : Keeper} {env : Env} {s s' : Context} {d v : Address}

/-- Only the delegations to `v` have changed. -/
structure Elsewhere (v : Address) (st st' : Staking) : Prop where
  status : st'.status = st.status
  withdrawAddr : ∀ d, st'.withdrawAddr d = st.withdrawAddr d
  pending : ∀ d v', v' ≠ v → st'.pending d v' = st.pending d v'

namespace Elsewhere

variable {st st' st'' : Staking}

theorem refl : Elsewhere v st st := ⟨rfl, fun _ => rfl, fun _ _ _ => rfl⟩

theorem trans (h₁ : Elsewhere v st st') (h₂ : Elsewhere v st' st'') : Elsewhere v st st'' where
  status := h₂.status.trans h₁.status
  withdrawAddr d := (h₂.withdrawAddr d).trans (h₁.withdrawAddr d)
  pending d v' hv := (h₂.pending d v' hv).trans (h₁.pending d v' hv)

theorem setPending (d : Address) (rewards : Option Coins) :
    Elsewhere v st (st.setPending d v rewards) :=
  ⟨rfl, fun _ => rfl, fun _ _ hv => if_neg fun h => hv h.2⟩

theorem removeValidator : Elsewhere v st (st.removeValidator v) :=
  ⟨rfl, fun _ => rfl, fun _ _ _ => rfl⟩

theorem rewardPayments {v' : Address} (h : Elsewhere v st st') (hv : v' ≠ v) :
    rewardPayments k env st' d v' = rewardPayments k env st d v' := by
  unfold Cosmos.rewardPayments
  rw [h.pending d v' hv, h.withdrawAddr d]

end Elsewhere

end

/-- What is documented of the message servers: which payments a message that succeeds makes. -/
structure Modules.Documented (modules : Modules) (k : Keeper) (env : Env) : Prop where
  delegate : ∀ {s s' : Context} {d v : Address} {n : Nat},
    (modules.delegate d v n).run s = (s', .ok ()) →
      Pays (rewardPayments k env s.staking d v ++
        [⟨some d, some (pool k (s.staking.status v)), nativeStake env n⟩]) s s'
  undelegate : ∀ {s s' : Context} {d v : Address} {n : Nat},
    (modules.undelegate d v n).run s = (s', .ok ()) →
      Pays (rewardPayments k env s.staking d v ++ removalPayments k env s.staking v ++
        repool k env (s.staking.status v) .unbonding env.returned) s s'
  beginRedelegate : ∀ {s s' : Context} {d v v' : Address} {n : Nat},
    (modules.beginRedelegate d v v' n).run s = (s', .ok ()) →
      Pays (rewardPayments k env s.staking d v ++ removalPayments k env s.staking v ++
        (rewardPayments k env s.staking d v' ++
          repool k env (s.staking.status v) (s.staking.status v') env.returned)) s s'
  cancelUnbondingDelegation : ∀ {s s' : Context} {d v : Address} {n : Nat} {height : Int},
    (modules.cancelUnbondingDelegation d v n height).run s = (s', .ok ()) →
      Pays (rewardPayments k env s.staking d v ++
        repool k env .unbonding (s.staking.status v) n) s s'
  /-- the answer starts with the first coin of the rewards, and other delegations stay -/
  withdrawDelegationRewards : ∀ {s s' : Context} {d v : Address} {coins : Coins},
    (modules.withdrawDelegationRewards d v).run s = (s', .ok coins) →
      Pays (rewardPayments k env s.staking d v) s s' ∧ Elsewhere v s.staking s'.staking ∧
        (coins.head?.map Coin.amount).getD 0 = firstReward s.staking d v
  withdrawValidatorCommission : ∀ {s s' : Context} {v : Address} {coins : Coins},
    (modules.withdrawValidatorCommission v).run s = (s', .ok coins) →
      Pays (distribute k env (s.staking.withdrawAddr v) (s.staking.commission v)) s s'
  transfer : ∀ {s s' : Context} {msg : MsgTransfer},
    (modules.transfer msg).run s = (s', .ok ()) → Pays (sendTransfer k env msg) s s'

/-! ## What a call pays and adjusts -/

variable {k : Keeper} {env : Env} {modules : Modules} {s s' : Context}

theorem onGrants_ok {α : Type} {x : Action Grants AuthzError α} {a : α}
    (h : (onGrants x).run s = (s', .ok a)) :
    s'.backend = s.backend ∧ s'.db = s.db ∧ s'.staking = s.staking := by
  obtain ⟨_, -, rfl⟩ := run_zoom_ok.mp h
  exact ⟨rfl, rfl, rfl⟩

variable {n : Nat} {ps : List (Payment Address)} {caller origin d v : Address}

theorem checkDelegator_bind_ok {f : Unit → Action Context Err Unit}
    (h : (checkDelegator caller origin d n >>= f).run s = (s', .ok ())) :
    (f ()).run s = (s', .ok ()) := by
  obtain ⟨_, ⟨⟩, hcheck, hrest⟩ := run_bind_ok.mp h
  obtain ⟨-, hcheck⟩ := rejectIf_bind_ok.mp hcheck
  obtain ⟨-, hcheck⟩ := rejectIf_bind_ok.mp hcheck
  obtain ⟨-, rfl⟩ := run_rejectIf_ok.mp hcheck
  exact hrest

theorem validateDelegation_bind_ok {f : Unit → Action Context Err Unit}
    (h : (validateDelegationAmountNotUnvested env d n >>= f).run s = (s', .ok ())) :
    (f ()).run s = (s', .ok ()) := by
  obtain ⟨_, ⟨⟩, hvalid, hrest⟩ := run_bind_ok.mp h
  unfold validateDelegationAmountNotUnvested at hvalid
  rw [run_gets_bind] at hvalid
  obtain ⟨-, hvalid⟩ := rejectIf_bind_ok.mp hvalid
  obtain ⟨-, rfl⟩ := run_rejectIf_ok.mp hvalid
  exact hrest

theorem withStakeAuthz_ok {msg : MsgType} {execute : Action Context Err Unit}
    (hexec : ∀ t t', t.staking = s.staking → execute.run t = (t', .ok ()) → Pays ps t t')
    (h : (withStakeAuthz env caller origin msg d v n execute).run s = (s', .ok ())) :
    Pays ps s s' := by
  unfold withStakeAuthz at h
  dsimp only at h
  split at h
  · exact hexec s s' rfl h
  obtain ⟨t, _, hcheck, h⟩ := run_bind_ok.mp h
  obtain ⟨t', ⟨⟩, hrun, hupdate⟩ := run_bind_ok.mp h
  obtain ⟨hbackend, hdb, hstaking⟩ := onGrants_ok hcheck
  obtain ⟨hbackend', hdb', -⟩ := onGrants_ok hupdate
  have hpays := hexec t t' hstaking hrun
  exact ((Pays.nil hbackend hdb).append hpays).of_same hbackend' hdb'

/-- The result of the payments `ps` in the bank and of an adjustment of the caller's balance
in the StateDB. -/
structure Settles (ps : List (Payment Address)) (caller : Address) (adjust : Option Int)
    (s s' : Context) : Prop where
  paid : Paid ps s.backend s'.backend
  db : s'.db = adjust.elim s.db fun n => s.db.addBalance s'.backend caller n

theorem Pays.settles (h : Pays ps s s') : Settles ps caller none s s' :=
  ⟨h.paid, h.db⟩

theorem Pays.settles_if {t : Context} {c : Prop} [Decidable c] {n : Int} (hpays : Pays ps s t)
    (h : (if c then modifyDb fun b db => db.addBalance b caller n else pure ()).run t =
      (s', .ok ())) : Settles ps caller (if c then some n else none) s s' := by
  split
  · rename_i hc
    rw [if_pos hc, modifyDb, run_modify, Prod.mk.injEq] at h
    obtain ⟨rfl, -⟩ := h
    exact ⟨hpays.paid, by rw [← hpays.db]; rfl⟩
  rename_i hc
  rw [if_neg hc, run_pure, Prod.mk.injEq] at h
  rw [← h.1]
  exact hpays.settles

section

variable (hm : modules.Documented k env)

include hm

theorem delegate_ok (h : (delegate env modules d v n).run s = (s', .ok ())) :
    Pays (rewardPayments k env s.staking d v ++
      [⟨some d, some (pool k (s.staking.status v)), nativeStake env n⟩]) s s' :=
  hm.delegate (validateDelegation_bind_ok h)

theorem transfer_ok {msg : MsgTransfer} (h : (transfer env modules msg).run s = (s', .ok ())) :
    Pays (transferPayments k env s.backend.bank msg) s s' := by
  rw [transfer, run_gets_bind] at h
  obtain ⟨_, ⟨⟩, hconv, hsend⟩ := run_bind_ok.mp h
  exact (payAll_ok hconv).1.append (hm.transfer hsend)

theorem withdrawAll_ok {vs : List Address} (hnodup : vs.Nodup)
    (h : (withdrawAll modules d vs).run s = (s', .ok ())) :
    Pays (vs.flatMap (rewardPayments k env s.staking d)) s s' := by
  induction vs generalizing s with
  | nil =>
    rw [withdrawAll, run_pure, Prod.mk.injEq] at h
    obtain ⟨rfl, -⟩ := h
    exact .nil rfl rfl
  | cons _ vs ih =>
    rw [withdrawAll] at h
    obtain ⟨t, _, hw, h⟩ := run_bind_ok.mp h
    obtain ⟨hv, hvs⟩ := nodup_cons.mp hnodup
    obtain ⟨hpays, helse, -⟩ := hm.withdrawDelegationRewards hw
    have hrest := ih hvs h
    have hsame : vs.flatMap (rewardPayments k env t.staking d) =
        vs.flatMap (rewardPayments k env s.staking d) :=
      flatMap_congr fun v' hv' =>
        helse.rewardPayments (ne_of_mem_of_not_mem hv' hv)
    rw [hsame] at hrest
    rw [flatMap_cons]
    exact hpays.append hrest

theorem handleDelegate_ok
    (h : (handleDelegate modules env caller origin d v n).run s = (s', .ok ())) :
    Settles (payments k env s.staking s.backend.bank (.delegate d v n)) caller
      (if caller = d then some (-n) else none) s s' := by
  replace h := checkDelegator_bind_ok h
  obtain ⟨t, ⟨⟩, hstake, h⟩ := run_bind_ok.mp h
  have hpays : Pays (payments k env s.staking s.backend.bank (.delegate d v n)) s t :=
    withStakeAuthz_ok (fun t t' hstaking hrun => hstaking ▸ delegate_ok hm hrun) hstake
  simp only [Evm.StateDB.subBalance_eq_addBalance] at h
  exact hpays.settles_if h

theorem handleUndelegate_ok
    (h : (handleUndelegate modules env caller origin d v n).run s = (s', .ok ())) :
    Pays (payments k env s.staking s.backend.bank (.undelegate d v n)) s s' := by
  exact withStakeAuthz_ok (fun t t' hstaking hrun => hstaking ▸ hm.undelegate hrun)
    (checkDelegator_bind_ok h)

theorem handleRedelegate_ok {v' : Address}
    (h : (handleRedelegate modules env caller origin d v v' n).run s = (s', .ok ())) :
    Pays (payments k env s.staking s.backend.bank (.redelegate d v v' n)) s s' := by
  exact withStakeAuthz_ok (fun t t' hstaking hrun => hstaking ▸ hm.beginRedelegate hrun)
    (checkDelegator_bind_ok h)

theorem handleCancelUnbondingDelegation_ok {height : Int}
    (h : (handleCancelUnbondingDelegation modules env caller origin d v n height).run s =
      (s', .ok ())) :
    Pays (payments k env s.staking s.backend.bank (.cancelUnbondingDelegation d v n height))
      s s' := by
  obtain ⟨-, h⟩ := rejectIf_bind_ok.mp (checkDelegator_bind_ok h)
  exact withStakeAuthz_ok
    (fun t t' hstaking hrun => hstaking ▸ hm.cancelUnbondingDelegation hrun) h

theorem handleClaimRewards_ok {maxRetrieve : Nat}
    (h : (handleClaimRewards modules caller origin d maxRetrieve).run s = (s', .ok ())) :
    Pays (payments k env s.staking s.backend.bank (.claimRewards d maxRetrieve)) s s' := by
  obtain ⟨-, h⟩ := rejectIf_bind_ok.mp h
  obtain ⟨-, h⟩ := rejectIf_bind_ok.mp h
  rw [run_gets_bind] at h
  have hnodup : (s.staking.delegatorValidators d maxRetrieve).Nodup :=
    (s.staking.nodup.filter _).sublist (take_sublist _ _)
  exact withdrawAll_ok hm hnodup h

theorem handleWithdrawDelegatorRewards_ok
    (h : (handleWithdrawDelegatorRewards modules caller origin d v).run s = (s', .ok ())) :
    Settles (payments k env s.staking s.backend.bank (.withdrawDelegatorRewards d v)) caller
      (if caller = d then some (firstReward s.staking d v) else none) s s' := by
  obtain ⟨-, h⟩ := rejectIf_bind_ok.mp h
  obtain ⟨-, h⟩ := rejectIf_bind_ok.mp h
  obtain ⟨_, _, hw, h⟩ := run_bind_ok.mp h
  obtain ⟨hpays, -, hfirst⟩ := hm.withdrawDelegationRewards hw
  rw [hfirst] at h
  exact hpays.settles_if h

theorem handleWithdrawValidatorCommission_ok
    (h : (handleWithdrawValidatorCommission modules caller origin v).run s = (s', .ok ())) :
    Pays (payments k env s.staking s.backend.bank (.withdrawValidatorCommission v)) s s' := by
  obtain ⟨-, h⟩ := rejectIf_bind_ok.mp h
  obtain ⟨_, _, hw, h⟩ := run_bind_ok.mp h
  rw [run_pure, Prod.mk.injEq] at h
  rw [← h.1]
  exact hm.withdrawValidatorCommission hw

theorem handleTransfer_ok {msg : MsgTransfer}
    (h : (handleTransfer modules env caller origin msg).run s = (s', .ok ())) :
    Settles (payments k env s.staking s.backend.bank (.transfer msg)) caller
      (if caller = msg.sender ∧ (resolveDenom env msg).token.denom = env.bondDenom then
        some (-msg.token.amount) else none) s s' := by
  obtain ⟨-, h⟩ := rejectIf_bind_ok.mp h
  obtain ⟨-, h⟩ := rejectIf_bind_ok.mp h
  obtain ⟨-, h⟩ := rejectIf_bind_ok.mp h
  obtain ⟨_, _, haccept, h⟩ := run_bind_ok.mp h
  obtain ⟨_, ⟨⟩, htransfer, h⟩ := run_bind_ok.mp h
  obtain ⟨t₃, ⟨⟩, hupdate, h⟩ := run_bind_ok.mp h
  obtain ⟨hbackend, hdb, -⟩ := onGrants_ok haccept
  obtain ⟨hbackend', hdb', -⟩ := onGrants_ok hupdate
  have htransferred := transfer_ok hm htransfer
  rw [hbackend] at htransferred
  have hpays : Pays (payments k env s.staking s.backend.bank (.transfer msg)) s t₃ :=
    ((Pays.nil hbackend hdb).append htransferred).of_same hbackend' hdb'
  simp only [Evm.StateDB.subBalance_eq_addBalance] at h
  exact hpays.settles_if h

theorem execute_ok {c : Call} (h : (execute modules env c).run s = (s', .ok ())) :
    Settles (payments k env s.staking s.backend.bank c.method) c.caller
      (adjustment env s.staking c) s s' := by
  obtain ⟨_, _, _, method⟩ := c
  cases method with
  | delegate => exact handleDelegate_ok hm h
  | undelegate => exact (handleUndelegate_ok hm h).settles
  | redelegate => exact (handleRedelegate_ok hm h).settles
  | cancelUnbondingDelegation => exact (handleCancelUnbondingDelegation_ok hm h).settles
  | claimRewards => exact (handleClaimRewards_ok hm h).settles
  | withdrawDelegatorRewards => exact handleWithdrawDelegatorRewards_ok hm h
  | withdrawValidatorCommission => exact (handleWithdrawValidatorCommission_ok hm h).settles
  | transfer => exact handleTransfer_ok hm h

end

end HyperPax.Cosmos
