/-
  Vesting/Frame.lean --- what a call leaves to a funder who has no part in it.

  Each message touches one vesting account and moves coins from one account to another.
  A funder in whose name it does not act keeps its coins, and the accounts it funds stay
  as they are unless they have matured.
-/
import HyperPax.Vesting.Precompile

set_option autoImplicit false

namespace HyperPax.Vesting

open Lib Function

variable {D : Type} [Fintype D]

/-- The account of an address cannot be clawed back. -/
def NotClawback (s : State D) (a : Address) : Prop :=
  ∀ va, s.accounts a ≠ some (.clawback va)

/-- From one state to the next, the funder `F` loses nothing: its balance does not fall, and the
accounts it funds stay as they are unless they have matured. -/
structure Spared (F : Address) (s s' : State D) : Prop where
  now : s'.now = s.now
  grants : s'.grants = s.grants
  account : NotClawback s' F
  balance : s.balances F ≤ s'.balances F
  funded : ∀ a va, s.accounts a = some (.clawback va) → va.funderAddress = F →
    s'.accounts a = some (.clawback va) ∨ va.Matured s.now

namespace Spared

variable {F : Address} {s s' s'' : State D}

theorem trans (h : Spared F s s') (h' : Spared F s' s'') : Spared F s s'' where
  now := h'.now.trans h.now
  grants := h'.grants.trans h.grants
  account := h'.account
  balance := h.balance.trans h'.balance
  funded a va ha hF := by
    cases h.funded a va ha hF with
    | inl hsame =>
      have hrest := h'.funded a va hsame hF
      rwa [h.now] at hrest
    | inr hmatured => exact .inr hmatured

variable (hF : NotClawback s F)

include hF

variable {a : Address}

theorem setAccount {acc : Account D} (ha : a ≠ F)
    (hfree : ∀ va, s.accounts a = some (.clawback va) → va.funderAddress = F → va.Matured s.now) :
    Spared F s (setAccount s a acc) where
  now := rfl
  grants := rfl
  account va := by
    rw [setAccount_of_ne s acc ha.symm]
    exact hF va
  balance := le_rfl
  funded b va hb hfunder := by
    by_cases hab : b = a
    · subst hab
      exact .inr (hfree va hb hfunder)
    · exact .inl ((setAccount_of_ne s acc hab).trans hb)

theorem setVestingAccount {va : ClawbackVestingAccount D} (ha : a ≠ F)
    (hfree : ∀ va, s.accounts a = some (.clawback va) → va.funderAddress = F → va.Matured s.now)
    (h : setVestingAccount s a va = .ok s') : Spared F s s' := by
  have h := of_require h
  cases h
  exact .setAccount hF ha hfree

theorem convertToEth (ha : a ≠ F)
    (hfree : ∀ va, s.accounts a = some (.clawback va) → va.funderAddress = F → va.Matured s.now) :
    Spared F s (convertToEth s a) :=
  -- the entry for governance clawbacks is not among the things looked at
  ⟨rfl, rfl, (Spared.setAccount hF ha hfree).account, le_rfl,
    (Spared.setAccount hF ha hfree).funded⟩

theorem sendCoins {src dst : Address} {amount : Coins D} (hsrc : src ≠ F)
    (h : sendCoins s src dst amount = .ok s') : Spared F s s' := by
  have h := of_require h
  cases h
  refine ⟨rfl, rfl, ?_, ?_, ?_⟩
  · intro va
    by_cases hdst : F = dst
    · subst hdst
      simp only [update_self]
      cases hacc : s.accounts F with
      | none => exact fun h => nomatch h
      | some =>
        intro h
        refine hF va ?_
        rw [hacc]
        exact h
    · simp only [update_of_ne hdst]
      exact hF va
  · intro _
    simp only [moveCoins, if_neg hsrc.symm]
    omega
  · intro a _ ha _
    refine .inl ?_
    by_cases hdst : a = dst
    · subst hdst
      simp only [update_self, ha, Option.getD_some]
    · simp only [update_of_ne hdst]
      exact ha

theorem sendClawback {p : Params D} {dest : Address} {coins : Coins D} (ha : a ≠ F)
    (h : sendClawback p s a dest coins = .ok s') : Spared F s s' := by
  unfold Vesting.sendClawback at h
  split at h
  · rw [fundCommunityPool] at h
    obtain ⟨_, hsend, h⟩ := bind_ok.mp h
    cases h
    have hspared := sendCoins hF ha hsend
    exact ⟨hspared.now, hspared.grants, hspared.account, hspared.balance, hspared.funded⟩
  · exact sendCoins hF ha h

end Spared

/-! ## The messages -/

section

variable {F : Address} {p : Params D} {s s' : State D}

variable (hF : NotClawback s F)

include hF

variable {a : Address}

theorem free_of_funder_ne {va : ClawbackVestingAccount D}
    (ha : s.accounts a = some (.clawback va)) (hfunder : va.funderAddress ≠ F) :
    a ≠ F ∧ ∀ va, s.accounts a = some (.clawback va) → va.funderAddress = F → va.Matured s.now := by
  constructor
  · rintro rfl
    exact hF va ha
  intro _ ha' hfunder'
  rw [ha] at ha'
  cases ha'
  exact absurd hfunder' hfunder

theorem createClawbackVestingAccount_spared {msg : MsgCreateClawbackVestingAccount}
    (ha : msg.vestingAddress ≠ F) (h : createClawbackVestingAccount p s msg = .ok s') :
    Spared F s s' := by
  have h := of_require h
  obtain ⟨_, hcheck, h⟩ := bind_ok.mp h
  obtain ⟨_, hset, h⟩ := bind_ok.mp h
  cases h
  have hfree : ∀ va, s.accounts msg.vestingAddress = some (.clawback va) →
      va.funderAddress = F → va.Matured s.now := by
    intro _ hva
    rw [checkConvertible, hva] at hcheck
    cases hcheck
  have hspared := Spared.setVestingAccount hF ha hfree hset
  exact ⟨hspared.now, hspared.grants, hspared.account, hspared.balance, hspared.funded⟩

theorem recordGrant_spared [DecidableEq D] {delegatedAmt : Nat} {msg : MsgFundVestingAccount D}
    {coins : Coins D} (hfunder : msg.funderAddress ≠ F)
    (h : recordGrant p s delegatedAmt msg = .ok (s', coins)) : Spared F s s' := by
  have h := of_require h
  obtain ⟨_, hva, h⟩ := bind_ok.mp h
  obtain ⟨hsame, h⟩ := require_bind_ok.mp h
  obtain ⟨_, -, h⟩ := bind_ok.mp h
  obtain ⟨_, hset, h⟩ := bind_ok.mp h
  cases h
  rw [getClawbackVestingAccount_eq_ok] at hva
  obtain ⟨ha, hfree⟩ := free_of_funder_ne hF hva (hsame ▸ hfunder)
  exact .setVestingAccount hF ha hfree hset

theorem fundVestingAccount_spared [DecidableEq D] {delegatedAmt : Nat}
    {msg : MsgFundVestingAccount D} (hfunder : msg.funderAddress ≠ F)
    (h : fundVestingAccount p s delegatedAmt msg = .ok s') : Spared F s s' := by
  obtain ⟨⟨_, _⟩, hrecord, h⟩ := bind_ok.mp h
  have hspared := recordGrant_spared hF hfunder hrecord
  exact hspared.trans (Spared.sendCoins hspared.account hfunder h)

theorem checkClawback_spared {msg : MsgClawback} {va : ClawbackVestingAccount D} {dest : Address}
    (hfunder : msg.funderAddress ≠ F) (hauth : msg.funderAddress ≠ p.authority)
    (h : checkClawback p s msg = .ok (va, dest)) :
    msg.accountAddress ≠ F ∧ Spared F s (convertToEth s msg.accountAddress) := by
  obtain ⟨hva, hsame⟩ := checkClawback_ok h
  obtain ⟨ha, hfree⟩ := free_of_funder_ne hF hva (hsame hauth ▸ hfunder)
  exact ⟨ha, .convertToEth hF ha hfree⟩

theorem clawback_spared {msg : MsgClawback} {coins : Coins D} (hfunder : msg.funderAddress ≠ F)
    (hauth : msg.funderAddress ≠ p.authority) (h : clawback p s msg = .ok (s', coins)) :
    Spared F s s' := by
  obtain ⟨_, _, hcheck, hsend⟩ := clawback_ok h
  obtain ⟨ha, hspared⟩ := checkClawback_spared hF hfunder hauth hcheck
  exact hspared.trans (Spared.sendClawback hspared.account ha hsend)

theorem updateVestingFunder_spared {msg : MsgUpdateVestingFunder}
    (hfunder : msg.funderAddress ≠ F) (h : updateVestingFunder p s msg = .ok s') :
    Spared F s s' := by
  rw [updateVestingFunder, require_bind_ok, require_bind_ok] at h
  obtain ⟨-, -, h⟩ := h
  obtain ⟨_, hva, h⟩ := bind_ok.mp h
  obtain ⟨hsame, h⟩ := require_bind_ok.mp h
  rw [getClawbackVestingAccount_eq_ok] at hva
  obtain ⟨ha, hfree⟩ := free_of_funder_ne hF hva (hsame ▸ hfunder)
  exact .setVestingAccount hF ha hfree h

theorem convertVestingAccount_spared (h : convertVestingAccount s a = .ok s') : Spared F s s' := by
  rw [convertVestingAccount] at h
  obtain ⟨va, hva, h⟩ := bind_ok.mp h
  obtain ⟨vesting, hvesting, h⟩ := orRevert_bind_ok.mp h
  rw [require_bind_ok, orRevert_bind_ok] at h
  obtain ⟨hzero, locked, hlocked, h⟩ := h
  obtain ⟨hunlocked, h⟩ := require_bind_ok.mp h
  cases h
  rw [getClawbackVestingAccount_eq_ok] at hva
  refine .convertToEth hF ?_ ?_
  · rintro rfl
    exact hF va hva
  intro _ hva' _
  rw [hva] at hva'
  cases hva'
  exact ⟨⟨vesting, hvesting, hzero⟩, locked, hlocked, hunlocked⟩

end

theorem validateBasic_funder [LinearOrder D] {funder vesting : Address} {startTime : Time}
    {lockupPeriods vestingPeriods : List (RawPeriod D)} {msg : MsgFundVestingAccount D}
    (h : MsgFundVestingAccount.validateBasic funder vesting startTime lockupPeriods vestingPeriods =
      .ok msg) : msg.funderAddress = funder := by
  have h := of_require h
  obtain ⟨_, -, h⟩ := bind_ok.mp h
  obtain ⟨_, -, h⟩ := bind_ok.mp h
  rw [require_bind_ok, require_bind_ok] at h
  obtain ⟨-, -, h⟩ := h
  cases h
  rfl

variable [LinearOrder D]

theorem call_spared {F : Address} {p : Params D} {s s' : State D} {origin caller : Address}
    {delegatedAmt : Nat} {c : Call D} (hF : NotClawback s F) (horigin : origin ≠ F)
    (hacts : ∀ m funder, c.actsFor = some (m, funder) → funder ≠ F ∧ funder ≠ p.authority)
    (h : call p s origin caller delegatedAmt c = .ok s') : Spared F s s' := by
  cases c with
  | createClawbackVestingAccount =>
    obtain ⟨u, -, h⟩ := bind_ok.mp h
    obtain ⟨hsame, h⟩ := require_bind_ok.mp h
    exact createClawbackVestingAccount_spared hF (hsame ▸ horigin) h
  | fundVestingAccount funder =>
    obtain ⟨_, hmsg, h⟩ := bind_ok.mp h
    obtain ⟨u, -, h⟩ := bind_ok.mp h
    refine fundVestingAccount_spared hF ?_ h
    rw [validateBasic_funder hmsg]
    exact (hacts _ funder rfl).1
  | clawback funder =>
    obtain ⟨u, -, h⟩ := bind_ok.mp h
    obtain ⟨⟨_, _⟩, hclaw, h⟩ := bind_ok.mp h
    cases h
    exact clawback_spared hF (hacts _ funder rfl).1 (hacts _ funder rfl).2 hclaw
  | updateVestingFunder funder =>
    obtain ⟨u, -, h⟩ := bind_ok.mp h
    obtain ⟨_, -, h⟩ := bind_ok.mp h
    exact updateVestingFunder_spared hF (hacts _ funder rfl).1 h
  | convertVestingAccount => exact convertVestingAccount_spared hF h

theorem leftover_spared {F : Address} {p : Params D} {s s' : State D} {origin caller : Address}
    {delegatedAmt : Nat} {c : Call D} (hF : NotClawback s F)
    (hacts : ∀ m funder, c.actsFor = some (m, funder) → funder ≠ F ∧ funder ≠ p.authority)
    (h : leftover p s origin caller delegatedAmt c = some s') : Spared F s s' := by
  cases c with
  | fundVestingAccount funder =>
    obtain ⟨_, hmsg, h⟩ := bind_ok.mp (toOption_eq_some.mp h)
    obtain ⟨u, -, h⟩ := bind_ok.mp h
    obtain ⟨⟨_, _⟩, hrecord, h⟩ := bind_ok.mp h
    cases h
    refine recordGrant_spared hF ?_ hrecord
    rw [validateBasic_funder hmsg]
    exact (hacts _ funder rfl).1
  | clawback funder =>
    obtain ⟨u, -, h⟩ := bind_ok.mp (toOption_eq_some.mp h)
    obtain ⟨⟨_, _⟩, hcheck, h⟩ := bind_ok.mp h
    obtain ⟨_, -, h⟩ := orRevert_bind_ok.mp h
    cases h
    exact (checkClawback_spared hF (hacts _ funder rfl).1 (hacts _ funder rfl).2 hcheck).2
  | createClawbackVestingAccount | updateVestingFunder | convertVestingAccount => cases h

end HyperPax.Vesting
