/-
  PaxSpot/Representation.lean --- what the three position mappings have to do with each
  other.

  Deposits, withdrawals and trades keep

      virtualBalances = depositedCollateral + epochNetDelta

  for every user and token, and make the net delta the part of a virtual balance that is
  not settled yet.  Settling is where it ends: both `settleEpoch` and `fastSettle` zero the
  net delta and credit nothing to the collateral.
-/
import HyperPax.PaxSpot.Custody

set_option autoImplicit false

namespace HyperPax.PaxSpot

open Lib Settlement VaultRun

/-- The virtual balance is the settled collateral plus the net delta. -/
def Settlement.RepresentsAt (s : Settlement) (user token : Address) : Prop :=
  (s.virtualBalances user token).val =
    (s.depositedCollateral user token).val + (s.epochNetDelta user token).val

/-- The invariant, for all tokens: one that is added later must meet it too. -/
structure Represented (s : Settlement) : Prop where
  listed : s.Listed
  at_all : ∀ user token, s.RepresentsAt user token

/-- The operations that keep it. -/
def Keeps (r : VaultRun) : VaultOp → Prop
  | .deposit _ _ _ amount => amount.val < 2 ^ 255
  | .call (.settleEpoch _) =>
    ∀ user ∈ r.vault.settlement.epochDirtyUsers, ∀ token ∈ r.vault.settlement.supportedTokens,
      (r.vault.settlement.epochNetDelta user token).val = 0
  | .call (.fastSettle _ _) => False
  | _ => True

instance (r : VaultRun) (op : VaultOp) : Decidable (Keeps r op) := by
  unfold Keeps
  split <;> infer_instance

section

variable {s s' : Settlement} {v v' : Vault} {sender user token : Address} {declines : Declines}
  {amount : Uint 256}

theorem RepresentsAt.shift {d : Int} (h : s.RepresentsAt user token)
    (hnet : s'.epochNetDelta = s.epochNetDelta)
    (hcoll : ((s'.depositedCollateral user token).val : Int) =
      (s.depositedCollateral user token).val + d)
    (hvirt : (s'.virtualBalances user token).val = (s.virtualBalances user token).val + d) :
    s'.RepresentsAt user token := by
  unfold Settlement.RepresentsAt at h ⊢
  rw [hnet, hvirt, hcoll, h]
  ring

theorem Represented.deposit_iff (hv : Represented v.settlement)
    (h : v.deposit declines sender token amount = .ok v') :
    (amount.val < 2 ^ 255 → Represented v'.settlement) ∧
      (v'.settlement.RepresentsAt sender token → amount.val < 2 ^ 255) ∧
      v'.settlement.isTokenSupported token := by
  obtain ⟨hsupp, -, -, hsetup, ⟨hnet, -⟩, hcoll, hvirt⟩ := Vault.deposit_ok h
  refine ⟨?_, ?_, (congrFun (congrArg Setup.isTokenSupported hsetup) token).trans hsupp⟩
  · intro hsmall
    refine ⟨hv.listed.of_setup hsetup, ?_⟩
    intro u t
    rw [int256_val hsmall] at hvirt
    exact RepresentsAt.shift (hv.at_all u t) hnet (hcoll u t) (hvirt u t)
  intro hafter
  by_contra hlarge
  have hbefore := hv.at_all sender token
  have hc := hcoll sender token
  have hb := hvirt sender token
  rw [if_pos ⟨rfl, rfl⟩] at hc hb
  rw [int256_of_le (not_lt.mp hlarge)] at hb
  unfold Settlement.RepresentsAt at hbefore hafter
  rw [hnet] at hafter
  omega

theorem Represented.withdraw (hv : Represented v.settlement)
    (h : v.withdraw declines sender token amount = .ok v') : Represented v'.settlement := by
  obtain ⟨-, havail, -, -, hsetup, ⟨hnet, -⟩, hcoll, hvirt⟩ := Vault.withdraw_ok h
  have hle := havail.trans (v.settlement.getWithdrawable_le sender token)
  have hsmall : amount.val < 2 ^ 255 := by
    by_contra hlarge
    have hbefore := hv.at_all sender token
    have hb := hvirt sender token
    have hrange := (v'.settlement.virtualBalances sender token).lt_two_pow
    have hdelta := (v.settlement.epochNetDelta sender token).neg_two_pow_le
    unfold Settlement.RepresentsAt at hbefore
    rw [if_pos ⟨rfl, rfl⟩, int256_of_le (not_lt.mp hlarge)] at hb
    omega
  refine ⟨hv.listed.of_setup hsetup, ?_⟩
  intro u t
  rw [int256_val hsmall] at hvirt
  exact RepresentsAt.shift (hv.at_all u t) hnet (hcoll u t) (hvirt u t)

theorem Represented.updateVirtualBalance {delta : Sint 256} (hs : Represented s)
    (h : s.updateVirtualBalance sender user token delta = .ok s') : Represented s' := by
  obtain ⟨hsetup, hcoll, hvirt, hnet, -⟩ := updateVirtualBalance_ok h
  refine ⟨hs.listed.of_setup hsetup, ?_⟩
  intro u t
  have hbefore := hs.at_all u t
  unfold Settlement.RepresentsAt at hbefore ⊢
  rw [hcoll, hvirt, hnet, hbefore]
  ring

theorem Represented.settleEpoch_iff {block : Nat} (hs : Represented s)
    (h : s.settleEpoch block = .ok s') :
    ((∀ u ∈ s.epochDirtyUsers, ∀ t ∈ s.supportedTokens, (s.epochNetDelta u t).val = 0) →
      Represented s') ∧ ((∀ u t, s'.isTokenSupported t → s'.RepresentsAt u t) →
      ∀ u ∈ s.epochDirtyUsers, ∀ t ∈ s.supportedTokens, (s.epochNetDelta u t).val = 0) := by
  obtain ⟨hsetup, hcoll, hvirt, hnet⟩ := settleEpoch_ok h
  refine ⟨?_, ?_⟩
  · intro hzero
    refine ⟨hs.listed.of_setup hsetup, ?_⟩
    intro u t
    have hbefore := hs.at_all u t
    have hsame : (s'.epochNetDelta u t).val = (s.epochNetDelta u t).val := by
      rw [hnet u t]
      split
      · rename_i hsettled
        exact (hzero u hsettled.1 t hsettled.2).symm
      · rfl
    unfold Settlement.RepresentsAt at hbefore ⊢
    rw [hvirt, hcoll, hsame, hbefore]
  · intro hafter u hu t ht
    have hsupp : s'.isTokenSupported t :=
      (congrFun (congrArg Setup.isTokenSupported hsetup) t).trans ((hs.listed t).mp ht)
    have hrep := hafter u t hsupp
    have hbefore := hs.at_all u t
    unfold Settlement.RepresentsAt at hrep hbefore
    rw [hvirt, hcoll, hnet u t, if_pos ⟨hu, ht⟩, Sint.val_zero] at hrep
    omega

theorem Represented.not_fastSettle (hs : Represented s) (h : s.fastSettle sender token = .ok s') :
    s'.isTokenSupported token ∧ ¬ s'.RepresentsAt sender token := by
  obtain ⟨⟨hsupp, _⟩, hsetup, hcoll, ⟨hnet, -⟩, hvirt⟩ :=
    fastSettle_ok h
  refine ⟨(congrFun (congrArg Setup.isTokenSupported hsetup) token).trans hsupp, ?_⟩
  intro hafter
  have hbefore := hs.at_all sender token
  have hb := hvirt sender token
  unfold Settlement.RepresentsAt at hbefore hafter
  rw [hnet, write_same, Sint.val_zero, hcoll] at hafter
  rw [if_pos ⟨rfl, rfl⟩] at hb
  rcases abs_cases (s.epochNetDelta sender token).val with ⟨habs, _⟩ | ⟨habs, _⟩
  · rw [habs] at hb
    split at hb <;> omega
  · rw [habs] at hb
    split at hb <;> omega

end

/-! ## Runs -/

theorem Represented.step_iff {r r' : VaultRun} {op : VaultOp}
    (hr : Represented r.vault.settlement) (h : r.step op = some r') :
    (Keeps r op → Represented r'.vault.settlement) ∧
      ((∀ user token, r'.vault.settlement.isTokenSupported token →
        r'.vault.settlement.RepresentsAt user token) → Keeps r op) := by
  rcases step_cases h with
    ⟨_, sender, token, _, rfl, -, hdeposit, -, -⟩ |
    ⟨_, sender, token, _, rfl, -, hwithdraw, -, -⟩ |
    ⟨c, rfl, hcall, -, -, -⟩ | ⟨token, _, _, _, rfl, -, -, hsettlement, -, -, -⟩
  · obtain ⟨hkeeps, hneeds, hsupp⟩ := hr.deposit_iff hdeposit
    exact ⟨hkeeps, fun hafter => hneeds (hafter sender token hsupp)⟩
  · exact ⟨fun _ => hr.withdraw hwithdraw, fun _ => trivial⟩
  · rcases c.cases with ⟨sender, _, token, _, rfl⟩ | ⟨_, rfl⟩ | ⟨sender, token, rfl⟩ |
      hadmin
    · exact ⟨fun _ => hr.updateVirtualBalance hcall, fun _ => trivial⟩
    · exact hr.settleEpoch_iff hcall
    · obtain ⟨hsupp, hbroken⟩ := hr.not_fastSettle hcall
      exact ⟨False.elim, fun hafter => hbroken (hafter sender token hsupp)⟩
    obtain ⟨hpositions, hlisted, -⟩ := call_administrative hadmin hcall
    obtain ⟨-, hvirt, hcoll, hnet⟩ :
        r'.vault.settlement.self = r.vault.settlement.self ∧
        r'.vault.settlement.virtualBalances = r.vault.settlement.virtualBalances ∧
        r'.vault.settlement.depositedCollateral = r.vault.settlement.depositedCollateral ∧
        r'.vault.settlement.epochNetDelta = r.vault.settlement.epochNetDelta := by
      simpa [Settlement.positions] using hpositions
    have hkept : Represented r'.vault.settlement := by
      refine ⟨hlisted hr.listed, ?_⟩
      intro u t
      unfold Settlement.RepresentsAt
      rw [hvirt, hcoll, hnet]
      exact hr.at_all u t
    refine ⟨fun _ => hkept, fun _ => ?_⟩
    cases c with
    | updateVirtualBalance | settleEpoch | fastSettle => exact hadmin.elim
    | setMatchingEngine | setTreasury | setEpochLength | addToken | pause | unpause => trivial
  · rw [hsettlement]
    exact ⟨fun _ => hr, fun _ => trivial⟩

/-- In every run without a deposit of `2^255` or more, without a fast settlement, and whose
epochs settle only zero net deltas, every virtual balance is the collateral plus the
net delta.  The condition is exact: any other successful step ends it for a supported
token. -/
theorem represented_of_path {self owner treasury : Address} {block epochLength : Nat}
    {s : Settlement} (hdeploy : Settlement.deploy self owner block epochLength treasury = .ok s)
    (tokens : Address → Ledger) {r : VaultRun} (h : Path step Keeps (.start s tokens) r) :
    (∀ user token, (r.vault.settlement.virtualBalances user token).val =
      (r.vault.settlement.depositedCollateral user token).val +
        (r.vault.settlement.epochNetDelta user token).val) ∧ ∀ op r', r.step op = some r' →
      ((∀ user token, r'.vault.settlement.isTokenSupported token →
        (r'.vault.settlement.virtualBalances user token).val =
          (r'.vault.settlement.depositedCollateral user token).val +
            (r'.vault.settlement.epochNetDelta user token).val) ↔ Keeps r op) := by
  obtain ⟨hlisted, hvirt, hcoll, hnet⟩ := deploy_ok hdeploy
  have hstart : Represented (start s tokens).vault.settlement := by
    refine ⟨hlisted, ?_⟩
    intro u t
    have hv := hvirt u t
    have hc := hcoll u t
    have hn := hnet u t
    exact hv.trans (by rw [start, hc, hn]; rfl)
  have hr : Represented r.vault.settlement :=
    Path.invariant (I := fun r => Represented r.vault.settlement)
      (fun _ _ _ ht hok hstep => (ht.step_iff hstep).1 hok) hstart h
  refine ⟨hr.at_all, ?_⟩
  intro _ _ hstep
  obtain ⟨hkeeps, hneeds⟩ := hr.step_iff hstep
  exact ⟨hneeds, fun hok user token _ => (hkeeps hok).at_all user token⟩

open CustodyRun in
/-- Alice trades a gain of 10 and the epoch is settled: the gain is neither collateral nor a
net delta any more. -/
theorem settledGain_lost : ∃ r, Path step (fun _ _ => True) (.start settlement tokens) r ∧
      r.vault.settlement.isTokenSupported token ∧
      (r.vault.settlement.virtualBalances alice token).val = 10 ∧
      (r.vault.settlement.depositedCollateral alice token).val = 0 ∧
      (r.vault.settlement.epochNetDelta alice token).val = 0 ∧
      ¬ (r.vault.settlement.virtualBalances alice token).val =
        (r.vault.settlement.depositedCollateral alice token).val +
          (r.vault.settlement.epochNetDelta alice token).val := by
  have hrun : (runLabels (guardedStep step fun _ _ => True) (.start settlement tokens)
      [.call (.setMatchingEngine owner engine), .call (.addToken owner token),
        .call (.updateVirtualBalance engine alice token ⟨10, by decide, by decide⟩),
        .call (.settleEpoch 5)]).map
      (fun r => (r.vault.settlement.isTokenSupported token,
        (r.vault.settlement.virtualBalances alice token).val,
        (r.vault.settlement.depositedCollateral alice token).val,
        (r.vault.settlement.epochNetDelta alice token).val)) = some (true, 10, 0, 0) := by
    decide +kernel
  obtain ⟨r, hr, hvalues⟩ := Option.map_eq_some_iff.mp hrun
  simp only [Prod.mk.injEq] at hvalues
  obtain ⟨hsupp, hvirt, hcoll, hnet⟩ := hvalues
  refine ⟨r, path_of_runLabels hr, hsupp, hvirt, hcoll, hnet, ?_⟩
  rw [hvirt, hcoll, hnet]
  decide

open CustodyRun in
/-- Before any settlement a gain of 10 on a deposit of 100 is a virtual balance of 110. -/
theorem represented_before_settlement : ∃ r, Path step Keeps (.start settlement tokens) r ∧
      (r.vault.settlement.depositedCollateral alice token).val = 100 ∧
      (r.vault.settlement.epochNetDelta alice token).val = 10 ∧
      (r.vault.settlement.virtualBalances alice token).val =
        (r.vault.settlement.depositedCollateral alice token).val +
          (r.vault.settlement.epochNetDelta alice token).val := by
  have hrun : (runLabels (guardedStep step Keeps) (.start settlement tokens)
      [.call (.setMatchingEngine owner engine), .call (.addToken owner token),
        .deposit willing alice token ⟨100, by decide⟩,
        .call (.updateVirtualBalance engine alice token ⟨10, by decide, by decide⟩)]).map
      (fun r => ((r.vault.settlement.depositedCollateral alice token).val,
        (r.vault.settlement.epochNetDelta alice token).val)) = some (100, 10) := by
    decide +kernel
  obtain ⟨r, hr, hvalues⟩ := Option.map_eq_some_iff.mp hrun
  simp only [Prod.mk.injEq] at hvalues
  have hpath := path_of_runLabels hr
  have hdeploy : Settlement.deploy self owner 0 5 treasury = .ok settlement := by rfl
  exact ⟨r, hpath, hvalues.1, hvalues.2, (represented_of_path hdeploy tokens hpath).1 alice token⟩

end HyperPax.PaxSpot
