/-
  PaxSpot/Custody.lean --- runs of the settlement engine on its own.

  The matching engine is any account here: it may move virtual balances by
  arbitrary signed amounts.  Two questions are asked of every state of every run.

      custody          are the tokens there that users may withdraw?
      representation   is a virtual balance the collateral plus the net delta?

  The first has its answer in the collateral, which trading cannot touch.  The second
  fails at every settlement, because settling only forgets the net delta.
-/
import HyperPax.PaxSpot.Settlement
import HyperPax.Lib.Transition

set_option autoImplicit false

namespace HyperPax.PaxSpot

open Lib Function Settlement

/-! ## Runs -/

/-- A call that moves no tokens. -/
inductive SettlementCall where
  | updateVirtualBalance (sender user token : Address) (delta : Sint 256)
  | settleEpoch (block : Nat)
  | fastSettle (sender token : Address)
  | setMatchingEngine (sender matchingEngine : Address)
  | setTreasury (sender treasury : Address)
  | setEpochLength (sender : Address) (epochLength : Nat)
  | addToken (sender token : Address)
  | pause (sender : Address)
  | unpause (sender : Address)

/-- A call of the contract. -/
def Settlement.call (s : Settlement) : SettlementCall → Except Revert Settlement
  | .updateVirtualBalance sender user token delta => s.updateVirtualBalance sender user token delta
  | .settleEpoch block => s.settleEpoch block
  | .fastSettle sender token => s.fastSettle sender token
  | .setMatchingEngine sender matchingEngine => s.setMatchingEngine sender matchingEngine
  | .setTreasury sender treasury => s.setTreasury sender treasury
  | .setEpochLength sender epochLength => s.setEpochLength sender epochLength
  | .addToken sender token => s.addToken sender token
  | .pause sender => s.pause sender
  | .unpause sender => s.unpause sender

/-- What happens to the contract and to its tokens. -/
inductive VaultOp where
  | deposit (declines : Declines) (sender token : Address) (amount : Uint 256)
  | withdraw (declines : Declines) (sender token : Address) (amount : Uint 256)
  | call (c : SettlementCall)
  /-- holders move tokens among themselves, or give some to the contract -/
  | transferToken (token src dst : Address) (amount : Nat)

/-- The contract and its tokens, with what each user has deposited and withdrawn so far.  The
two totals are history variables of the model. -/
structure VaultRun where
  vault : Vault
  deposited : Address → Address → Nat
  withdrawn : Address → Address → Nat

namespace VaultRun

/-- Nothing has been deposited. -/
def start (s : Settlement) (tokens : Address → Ledger) : VaultRun :=
  ⟨⟨s, tokens⟩, fun _ _ => 0, fun _ _ => 0⟩

/-- The contract never calls itself, and sends tokens only in `withdraw`. -/
def step (r : VaultRun) : VaultOp → Option VaultRun
  | .deposit declines sender token amount =>
    if sender = r.vault.settlement.self then none
    else match r.vault.deposit declines sender token amount with
      | .ok v => some { r with
          vault := v
          deposited := write r.deposited sender token (r.deposited sender token + amount.val) }
      | .error _ => none
  | .withdraw declines sender token amount =>
    if sender = r.vault.settlement.self then none
    else match r.vault.withdraw declines sender token amount with
      | .ok v => some { r with
          vault := v
          withdrawn := write r.withdrawn sender token (r.withdrawn sender token + amount.val) }
      | .error _ => none
  | .call c =>
    match r.vault.settlement.call c with
    | .ok s => some { r with vault := { r.vault with settlement := s } }
    | .error _ => none
  | .transferToken token src dst amount =>
    if src = r.vault.settlement.self ∨ r.vault.tokens token src < amount then none
    else some { r with
      vault := { r.vault with
        tokens := update r.vault.tokens token
          ((r.vault.tokens token).transfer src dst amount) } }

end VaultRun

variable {r r' : VaultRun} {s s' : Settlement} {c : SettlementCall}

/-- What one step of a run was. -/
theorem VaultRun.step_cases {op : VaultOp} (h : r.step op = some r') :
    (∃ declines sender token amount, op = .deposit declines sender token amount ∧
      sender ≠ r.vault.settlement.self ∧
      r.vault.deposit declines sender token amount = .ok r'.vault ∧
      r'.deposited = write r.deposited sender token (r.deposited sender token + amount.val) ∧
      r'.withdrawn = r.withdrawn) ∨
    (∃ declines sender token amount, op = .withdraw declines sender token amount ∧
      sender ≠ r.vault.settlement.self ∧
      r.vault.withdraw declines sender token amount = .ok r'.vault ∧ r'.deposited = r.deposited ∧
      r'.withdrawn = write r.withdrawn sender token (r.withdrawn sender token + amount.val)) ∨
    (∃ c, op = .call c ∧ r.vault.settlement.call c = .ok r'.vault.settlement ∧
      r'.vault.tokens = r.vault.tokens ∧ r'.deposited = r.deposited ∧ r'.withdrawn = r.withdrawn) ∨
    (∃ token src dst amount, op = .transferToken token src dst amount ∧
      src ≠ r.vault.settlement.self ∧ amount ≤ r.vault.tokens token src ∧
      r'.vault.settlement = r.vault.settlement ∧ r'.vault.tokens = update r.vault.tokens token
        ((r.vault.tokens token).transfer src dst amount) ∧
      r'.deposited = r.deposited ∧ r'.withdrawn = r.withdrawn) := by
  cases op with
  | deposit declines sender token amount =>
    simp only [step] at h
    split at h
    · cases h
    rename_i hself
    split at h
    · rename_i v hv
      cases h
      exact .inl ⟨declines, sender, token, amount, rfl, hself, hv, rfl, rfl⟩
    · cases h
  | withdraw declines sender token amount =>
    simp only [step] at h
    split at h
    · cases h
    rename_i hself
    split at h
    · rename_i v hv
      cases h
      exact .inr (.inl ⟨declines, sender, token, amount, rfl, hself, hv, rfl, rfl⟩)
    · cases h
  | call c =>
    simp only [step] at h
    split at h
    · rename_i s hs
      cases h
      exact .inr (.inr (.inl ⟨c, rfl, hs, rfl, rfl, rfl⟩))
    · cases h
  | transferToken token src dst amount =>
    simp only [step] at h
    split at h
    · cases h
    rename_i hguard
    push Not at hguard
    cases h
    exact .inr (.inr (.inr ⟨token, src, dst, amount, rfl, hguard.1, hguard.2, rfl, rfl, rfl, rfl⟩))

/-! ## Administrative calls -/

/-- Calls of the owner, which write no position. -/
def SettlementCall.Administrative : SettlementCall → Prop
  | .updateVirtualBalance .. => False
  | .settleEpoch _ => False
  | .fastSettle .. => False
  | _ => True

/-- The positions of every user, with the contract's own address. -/
def Settlement.positions (s : Settlement) : Address × (Address → Address → Sint 256) ×
    (Address → Address → Uint 256) × (Address → Address → Sint 256) :=
  (s.self, s.virtualBalances, s.depositedCollateral, s.epochNetDelta)

/-- The two records of the supported tokens agree. -/
def Settlement.Listed (s : Settlement) : Prop :=
  ∀ token, token ∈ s.supportedTokens ↔ s.isTokenSupported token

theorem Settlement.Listed.of_setup (h : s.Listed) (hsetup : s'.setup = s.setup) : s'.Listed := by
  have htokens : s'.supportedTokens = s.supportedTokens := congrArg Setup.supportedTokens hsetup
  have hflags : s'.isTokenSupported = s.isTokenSupported := congrArg Setup.isTokenSupported hsetup
  intro token
  rw [htokens, hflags]
  exact h token

theorem Settlement.call_administrative (hc : c.Administrative) (h : s.call c = .ok s') :
    s'.positions = s.positions ∧ (s.Listed → s'.Listed) ∧ s'.dirty = s.dirty ∧
      s.supportedTokens ⊆ s'.supportedTokens := by
  cases c with
  | updateVirtualBalance | settleEpoch | fastSettle => exact hc.elim
  | setMatchingEngine sender matchingEngine | setTreasury sender treasury
  | setEpochLength sender epochLength | pause sender | unpause sender =>
    have h := of_require h
    have h := of_require h
    cases h
    exact ⟨rfl, id, rfl, List.Subset.refl _⟩
  | addToken _ token =>
    have h := of_require h
    have h := of_require h
    have h := of_require h
    cases h
    refine ⟨rfl, ?_, rfl, List.subset_append_left _ _⟩
    intro hlisted t
    dsimp only
    rw [List.mem_append, List.mem_singleton, hlisted t, update_apply]
    by_cases ht : t = token <;> simp [ht]

theorem SettlementCall.cases (c : SettlementCall) :
    (∃ sender user token delta, c = .updateVirtualBalance sender user token delta) ∨
      (∃ block, c = .settleEpoch block) ∨ (∃ sender token, c = .fastSettle sender token) ∨
      c.Administrative := by
  cases c with
  | updateVirtualBalance sender user token delta => exact .inl ⟨sender, user, token, delta, rfl⟩
  | settleEpoch block => exact .inr (.inl ⟨block, rfl⟩)
  | fastSettle sender token => exact .inr (.inr (.inl ⟨sender, token, rfl⟩))
  | setMatchingEngine | setTreasury | setEpochLength | addToken | pause | unpause =>
    exact .inr (.inr (.inr trivial))

/-! ## Custody -/

theorem Settlement.call_collateral (h : s.call c = .ok s') :
    s'.self = s.self ∧ s'.depositedCollateral = s.depositedCollateral := by
  rcases c.cases with ⟨_, _, _, _, rfl⟩ | ⟨_, rfl⟩ | ⟨_, _, rfl⟩ | hadmin
  · obtain ⟨hsetup, hcoll, -, -⟩ := updateVirtualBalance_ok h
    exact ⟨congrArg Setup.self hsetup, hcoll⟩
  · obtain ⟨hsetup, hcoll, -, -⟩ := settleEpoch_ok h
    exact ⟨congrArg Setup.self hsetup, hcoll⟩
  · obtain ⟨-, hsetup, hcoll, -, -⟩ := fastSettle_ok h
    exact ⟨congrArg Setup.self hsetup, hcoll⟩
  · obtain ⟨hpositions, -⟩ := call_administrative hadmin h
    exact ⟨congrArg Prod.fst hpositions, congrArg (fun p => p.2.2.1) hpositions⟩

theorem Settlement.getWithdrawable_le (s : Settlement) (user token : Address) :
    (s.getWithdrawable user token).val ≤ (s.depositedCollateral user token).val := by
  unfold getWithdrawable
  dsimp only
  split
  · exact le_refl _
  rename_i hlt
  split
  · exact Nat.zero_le _
  rename_i hpos
  rw [Uint.truncate_of_lt (toNat_lt _)]
  -- the cast of a collateral of `2^255` or more is negative, and then `hpos` fails
  have hcast : (int256 (s.depositedCollateral user token)).val ≤
      (s.depositedCollateral user token).val := by
    by_cases hsmall : (s.depositedCollateral user token).val < 2 ^ 255
    · rw [int256_val hsmall]
    · have hbound := (int256 (s.depositedCollateral user token)).lt_two_pow
      omega
  omega

/-- The invariant of custody: the tokens cover the collateral, and the collateral is
what was deposited and not withdrawn. -/
structure Custodial (r : VaultRun) : Prop where
  covered : ∀ token,
    ∑ᶠ user, ((r.vault.settlement.depositedCollateral user token).val : Int) ≤
      r.vault.tokens token r.vault.settlement.self
  accounted : ∀ user token, r.withdrawn user token +
    (r.vault.settlement.depositedCollateral user token).val = r.deposited user token

section

variable {declines : Declines} {sender token : Address} {amount : Uint 256}

section

variable (hr : Custodial r)

include hr

theorem Custodial.deposit (hself : sender ≠ r.vault.settlement.self)
    (h : r.vault.deposit declines sender token amount = .ok r'.vault) (hdep : r'.deposited =
      write r.deposited sender token (r.deposited sender token + amount.val))
    (hwithdrawn : r'.withdrawn = r.withdrawn) : Custodial r' := by
  obtain ⟨-, _, htokens, hsetup, -, hcoll, -⟩ := Vault.deposit_ok h
  have hsame : r'.vault.settlement.self = r.vault.settlement.self := congrArg Setup.self hsetup
  refine ⟨?_, ?_⟩
  · intro t
    rw [finsum_shift_at hcoll t, htokens, hsame]
    have hbefore := hr.covered t
    by_cases ht : t = token
    · subst ht
      rw [if_pos rfl, update_self, Ledger.transfer_dst _ _ hself]
      omega
    · rw [if_neg ht, update_of_ne ht]
      omega
  · intro u t
    have hbefore := hr.accounted u t
    have hentry := hcoll u t
    rw [hdep, hwithdrawn, write_apply]
    by_cases hut : u = sender ∧ t = token
    · obtain ⟨rfl, rfl⟩ := hut
      rw [if_pos ⟨rfl, rfl⟩] at hentry ⊢
      omega
    · rw [if_neg hut] at hentry ⊢
      omega

theorem Custodial.withdraw (hself : sender ≠ r.vault.settlement.self)
    (h : r.vault.withdraw declines sender token amount = .ok r'.vault)
    (hdep : r'.deposited = r.deposited) (hwithdrawn : r'.withdrawn =
      write r.withdrawn sender token (r.withdrawn sender token + amount.val)) : Custodial r' := by
  obtain ⟨-, _, _, htokens, hsetup, -, hcoll, -⟩ := Vault.withdraw_ok h
  have hsame : r'.vault.settlement.self = r.vault.settlement.self := congrArg Setup.self hsetup
  refine ⟨?_, ?_⟩
  · intro t
    rw [finsum_shift_at hcoll t, htokens, hsame]
    have hbefore := hr.covered t
    by_cases ht : t = token
    · subst ht
      rw [if_pos rfl, update_self, Ledger.transfer_src _ _ hself.symm]
      omega
    · rw [if_neg ht, update_of_ne ht]
      omega
  · intro u t
    have hbefore := hr.accounted u t
    have hentry := hcoll u t
    rw [hdep, hwithdrawn, write_apply]
    by_cases hut : u = sender ∧ t = token
    · obtain ⟨rfl, rfl⟩ := hut
      rw [if_pos ⟨rfl, rfl⟩] at hentry ⊢
      omega
    · rw [if_neg hut] at hentry ⊢
      omega

theorem Custodial.transferToken {src dst : Address} {amount : Nat}
    (hsrc : src ≠ r.vault.settlement.self) (hcov : amount ≤ r.vault.tokens token src)
    (hsettlement : r'.vault.settlement = r.vault.settlement)
    (htokens : r'.vault.tokens = update r.vault.tokens token
      ((r.vault.tokens token).transfer src dst amount))
    (hdep : r'.deposited = r.deposited) (hwithdrawn : r'.withdrawn = r.withdrawn) :
    Custodial r' := by
  refine ⟨?_, ?_⟩
  · intro t
    rw [hsettlement, htokens]
    have hbefore := hr.covered t
    by_cases ht : t = token
    · subst ht
      rw [update_self, Ledger.transfer_int _ _ _ hcov, if_neg hsrc.symm]
      split <;> omega
    · rw [update_of_ne ht]
      exact hbefore
  · intro u t
    rw [hsettlement, hdep, hwithdrawn]
    exact hr.accounted u t

theorem Custodial.step {op : VaultOp} (h : r.step op = some r') : Custodial r' := by
  rcases VaultRun.step_cases h with
    ⟨_, _, _, _, -, hself, hdeposit, hdep, hwithdrawn⟩ |
    ⟨_, _, _, _, -, hself, hwithdraw, hdep, hwithdrawn⟩ |
    ⟨_, -, hcall, htokens, hdep, hwithdrawn⟩ |
    ⟨_, _, _, _, -, hsrc, hcov, hsettlement, htokens, hdep, hwithdrawn⟩
  · exact hr.deposit hself hdeposit hdep hwithdrawn
  · exact hr.withdraw hself hwithdraw hdep hwithdrawn
  · obtain ⟨hsame, hcoll⟩ := call_collateral hcall
    refine ⟨?_, ?_⟩
    · intro t
      rw [hcoll, htokens, hsame]
      exact hr.covered t
    · intro u t
      rw [hcoll, hdep, hwithdrawn]
      exact hr.accounted u t
  · exact hr.transferToken hsrc hcov hsettlement htokens hdep hwithdrawn

end

theorem Settlement.deploy_ok {self owner treasury : Address} {block epochLength : Nat}
    (h : deploy self owner block epochLength treasury = .ok s) :
    s.Listed ∧ (∀ u t, (s.virtualBalances u t).val = 0) ∧
      (∀ u t, (s.depositedCollateral u t).val = 0) ∧ ∀ u t, (s.epochNetDelta u t).val = 0 := by
  have h := of_require h
  have h := of_require h
  cases h
  exact ⟨fun t => by simp [fresh], fun _ _ => rfl, fun _ _ => rfl, fun _ _ => rfl⟩

theorem custodial_start (h : ∀ u t, (s.depositedCollateral u t).val = 0)
    (tokens : Address → Ledger) : Custodial (.start s tokens) := by
  refine ⟨?_, ?_⟩
  · intro t
    have hzero : ∀ u, (((VaultRun.start s tokens).vault.settlement.depositedCollateral u t).val
        : Int) = 0 := fun u => by exact_mod_cast h u t
    rw [finsum_congr hzero, finsum_zero]
    exact Int.natCast_nonneg _
  · intro u t
    exact (Nat.zero_add _).trans (h u t)

theorem Custodial.of_path {ok : VaultRun → VaultOp → Prop} (hr : Custodial r)
    (h : Path VaultRun.step ok r r') : Custodial r' :=
  Path.invariant (fun _ _ _ ht _ hstep => ht.step hstep) hr h

theorem Custodial.collateral_le (hr : Custodial r) (user token : Address) :
    (r.vault.settlement.depositedCollateral user token).val ≤
      r.vault.tokens token r.vault.settlement.self := by
  have hsingle := single_le_finsum user
    (f := fun u => ((r.vault.settlement.depositedCollateral u token).val : Int))
    (Set.toFinite _) (fun _ => Int.natCast_nonneg _)
  have hcov := hr.covered token
  omega

/-- A withdrawal within the available amount goes through. -/
theorem Custodial.withdraw_paid (hr : Custodial r)
    (hbound : r.vault.tokens token r.vault.settlement.self < 2 ^ 255)
    (hpaused : r.vault.settlement.paused = false)
    (hsupp : r.vault.settlement.isTokenSupported token)
    (havail : amount.val ≤ (r.vault.settlement.getWithdrawable sender token).val)
    (haccepted : declines token r.vault.settlement.self sender amount.val = false) :
    ∃ v, r.vault.withdraw declines sender token amount = .ok v := by
  have hcoll := hr.collateral_le sender token
  have hle := havail.trans (r.vault.settlement.getWithdrawable_le sender token)
  have hsmall : (r.vault.settlement.depositedCollateral sender token).val < 2 ^ 255 := by omega
  -- the virtual balance covers the amount, in both branches of `getWithdrawable`
  have hbal : (amount.val : Int) ≤ (r.vault.settlement.virtualBalances sender token).val ∨
      amount.val = 0 := by
    unfold Settlement.getWithdrawable at havail
    dsimp only at havail
    split at havail
    · rename_i hfull
      rw [int256_val hsmall] at hfull
      exact .inl (by omega)
    split at havail
    · exact .inr (by simpa using havail)
    · rw [Uint.truncate_of_lt (toNat_lt _)] at havail
      exact .inl (by omega)
  have hcast : (int256 amount).val = amount.val := int256_val (by omega)
  have hfits : Sint.Fits 256 ((r.vault.settlement.virtualBalances sender token).val -
      (int256 amount).val) := by
    have hlower := (r.vault.settlement.virtualBalances sender token).neg_two_pow_le
    have hupper := (r.vault.settlement.virtualBalances sender token).lt_two_pow
    rw [hcast]
    refine ⟨?_, ?_⟩
    · norm_num
      omega
    · norm_num
      omega
  have hsub : (r.vault.settlement.depositedCollateral sender token).sub? amount = some
      ⟨(r.vault.settlement.depositedCollateral sender token).val - amount.val,
        lt_of_le_of_lt (Nat.sub_le _ _)
          (r.vault.settlement.depositedCollateral sender token).lt_two_pow⟩ := by
    rw [Uint.sub?_eq_some]
    exact Nat.sub_add_cancel hle
  have htransfer : Vault.safeTransfer declines r.vault.tokens token r.vault.settlement.self sender
      amount = .ok (update r.vault.tokens token
        ((r.vault.tokens token).transfer r.vault.settlement.self sender amount.val)) :=
    require_bind_ok.mpr ⟨haccepted, require_bind_ok.mpr ⟨hle.trans hcoll, rfl⟩⟩
  have hneg : Sint.Fits 256 (-(int256 amount).val) := by
    rw [hcast]
    exact ⟨by norm_num; omega, by norm_num; omega⟩
  exact ⟨_, require_bind_ok.mpr ⟨hpaused, require_bind_ok.mpr ⟨hsupp,
    require_bind_ok.mpr ⟨not_lt.mpr havail, orRevert_bind_ok.mpr ⟨_, hsub,
      orRevert_bind_ok.mpr ⟨_, Sint.check_of_fits hfits, bind_ok.mpr ⟨_, htransfer,
        orRevert_bind_ok.mpr ⟨_, Sint.check_of_fits hneg, rfl⟩⟩⟩⟩⟩⟩⟩⟩

/-- In every run the contract holds what its users may withdraw, every withdrawal within the
available amount is paid (token amounts below `2^255`), and no user has withdrawn more of
a token than it had deposited. -/
theorem custody_of_path {self owner treasury : Address} {block epochLength : Nat}
    {s : Settlement} (hdeploy : Settlement.deploy self owner block epochLength treasury = .ok s)
    (tokens : Address → Ledger) {r : VaultRun}
    (h : Path VaultRun.step (fun _ _ => True) (.start s tokens) r) :
    (∀ token, ∑ᶠ user, ((r.vault.settlement.getWithdrawable user token).val : Int) ≤
      r.vault.tokens token r.vault.settlement.self) ∧
    (∀ (declines : Declines) (sender token : Address) (amount : Uint 256),
      (∀ holder, r.vault.tokens token holder < 2 ^ 255) → r.vault.settlement.paused = false →
      r.vault.settlement.isTokenSupported token →
      amount.val ≤ (r.vault.settlement.getWithdrawable sender token).val →
      declines token r.vault.settlement.self sender amount.val = false →
      ∃ v, r.vault.withdraw declines sender token amount = .ok v) ∧
    ∀ user token, r.withdrawn user token ≤ r.deposited user token := by
  have hr := (custodial_start (deploy_ok hdeploy).2.2.1 tokens).of_path h
  refine ⟨?_, ?_, ?_⟩
  · intro token
    refine le_trans ?_ (hr.covered token)
    refine finsum_le_finsum' (Set.toFinite _) (Set.toFinite _) ?_
    intro user
    exact Int.ofNat_le.mpr (getWithdrawable_le _ user token)
  · intro _ _ token _ hbound hpaused hsupp havail haccepted
    exact hr.withdraw_paid (hbound _) hpaused hsupp havail haccepted
  · intro user token
    have haccounted := hr.accounted user token
    omega

end

namespace CustodyRun

def self : Address := .ofNat 100
def owner : Address := .ofNat 101
def engine : Address := .ofNat 102
def treasury : Address := .ofNat 103
def token : Address := .ofNat 1
def alice : Address := .ofNat 2
def settlement : Settlement := .fresh self owner 0 5 treasury
def tokens : Address → Ledger := fun t a => if t = token ∧ a = alice then 100 else 0
def willing : Declines := fun _ _ _ _ => false

end CustodyRun

open CustodyRun in
/-- Alice deposits 100, loses 30 to trading, and withdraws 50 of the 70 that are left. -/
theorem custody_after_losses :
    ∃ r, Path VaultRun.step (fun _ _ => True) (.start settlement tokens) r ∧
      (r.vault.tokens token self = 50 ∧ r.withdrawn alice token = 50) ∧
      (r.vault.settlement.getWithdrawable alice token).val = 20 ∧
      r.withdrawn alice token ≤ r.deposited alice token := by
  have hrun : (runLabels (guardedStep VaultRun.step fun _ _ => True) (.start settlement tokens)
      [.call (.setMatchingEngine owner engine), .call (.addToken owner token),
        .deposit willing alice token ⟨100, by decide⟩,
        .call (.updateVirtualBalance engine alice token ⟨-30, by decide, by decide⟩),
        .withdraw willing alice token ⟨50, by decide⟩]).map
      (fun r => (r.vault.tokens token self, r.withdrawn alice token,
        (r.vault.settlement.getWithdrawable alice token).val)) = some (50, 50, 20) := by
    decide +kernel
  obtain ⟨r, hr, hvalues⟩ := Option.map_eq_some_iff.mp hrun
  simp only [Prod.mk.injEq] at hvalues
  have hpath := path_of_runLabels hr
  have hdeploy : Settlement.deploy self owner 0 5 treasury = .ok settlement := by rfl
  exact ⟨r, hpath, ⟨hvalues.1, hvalues.2.1⟩, hvalues.2.2,
    (custody_of_path hdeploy tokens hpath).2.2 alice token⟩

end HyperPax.PaxSpot
