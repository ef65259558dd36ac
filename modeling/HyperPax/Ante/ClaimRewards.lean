/-
  Ante/ClaimRewards.lean --- paying a fee from staking rewards.

  Source: app/ante/utils/claim_rewards.go.

  Rewards are withdrawn until they cover what the balance lacks.  They are paid to the withdraw
  address of the delegator, so that they help with the fee only if that is the delegator.
-/
import HyperPax.Base.Address

set_option autoImplicit false

namespace HyperPax.Ante

open Function

/-- Balances by account, and pending rewards by delegator and validator. -/
structure Funds where
  balances : Address → String → Int
  pending : Address → Address → String → Int

/-- What the staking and the distribution modules say: the delegations in the order of the
iteration, and which withdrawals fail. -/
structure Staking where
  bondDenom : String
  delegations : Address → List Address
  withdrawAddr : Address → Address
  fails : Funds → Address → Address → Bool

/-- Why no rewards were claimed. -/
inductive ClaimError where
  | wrongFeeDenomination
  | negativeBalance
  | withdrawal
  | insufficientRewards
  deriving DecidableEq

namespace Staking

variable (k : Staking) (addr : Address)

/-- `WithdrawDelegationRewards`: the reward, and the funds after it was paid. -/
def withdrawDelegationRewards (s : Funds) (validator : Address) :
    Option ((String → Int) × Funds) :=
  if k.fails s addr validator then none
  else
    let reward := s.pending addr validator
    let payee := k.withdrawAddr addr
    some (reward, {
      balances := update s.balances payee fun denom => s.balances payee denom + reward denom
      pending := update s.pending addr (update (s.pending addr) validator fun _ => 0) })

/-- The iteration, which stops once the rewards reach the amount. -/
def claimRewards (amount : Int) : List Address → Int → Funds → Option (Int × Funds)
  | [], rewards, s => some (rewards, s)
  | validator :: rest, rewards, s =>
    match k.withdrawDelegationRewards addr s validator with
    | none => none
    | some (reward, s') =>
      if amount ≤ rewards + reward k.bondDenom then some (rewards + reward k.bondDenom, s')
      else claimRewards amount rest (rewards + reward k.bondDenom) s'

/-- `ClaimSufficientStakingRewards`. -/
def claimSufficientStakingRewards (amount : Int) (s : Funds) : Option ClaimError × Funds :=
  match k.claimRewards addr amount (k.delegations addr) 0 s with
  | none => (some .withdrawal, s)
  | some (rewards, s') =>
    -- The cached context is written only here.
    if rewards < amount then (some .insufficientRewards, s) else (none, s')

/-- `ClaimStakingRewardsIfNecessary`. -/
def claimStakingRewardsIfNecessary (fee : List (String × Int)) (s : Funds) :
    Option ClaimError × Funds :=
  match fee.lookup k.bondDenom with
  | none => (some .wrongFeeDenomination, s)
  | some amount =>
    let balance := s.balances addr k.bondDenom
    if balance < 0 then (some .negativeBalance, s)
    else if amount ≤ balance then (none, s)
    else k.claimSufficientStakingRewards addr (amount - balance) s

/-- Success means that the balance covers the fee, and an error that nothing changed. -/
def Covers (fee : List (String × Int)) (s : Funds) : Prop :=
  match k.claimStakingRewardsIfNecessary addr fee s with
  | (none, s') => ∃ amount, fee.lookup k.bondDenom = some amount ∧
      amount ≤ s'.balances addr k.bondDenom
  | (some _, s') => s' = s

variable {k addr}

theorem balance_of_claimRewards (hw : k.withdrawAddr addr = addr) {amount : Int}
    {validators : List Address} {rewards rewards' : Int} {s s' : Funds}
    (h : k.claimRewards addr amount validators rewards s = some (rewards', s')) :
    s'.balances addr k.bondDenom - rewards' = s.balances addr k.bondDenom - rewards := by
  induction validators generalizing rewards s with
  | nil =>
    cases h
    rfl
  | cons validator rest ih =>
    rw [claimRewards, withdrawDelegationRewards, hw] at h
    cases hfails : k.fails s addr validator with
    | true =>
      rw [hfails, if_pos rfl] at h
      cases h
    | false =>
      rw [hfails, if_neg Bool.false_ne_true] at h
      dsimp only at h
      split_ifs at h
      · cases h
        simp only [update_self]
        omega
      · rw [ih h]
        simp only [update_self]
        omega

theorem balance_of_claimRewards_other (hw : addr ≠ k.withdrawAddr addr) {amount : Int}
    {validators : List Address} {rewards rewards' : Int} {s s' : Funds}
    (h : k.claimRewards addr amount validators rewards s = some (rewards', s')) :
    s'.balances addr = s.balances addr := by
  induction validators generalizing rewards s with
  | nil =>
    cases h
    rfl
  | cons validator rest ih =>
    rw [claimRewards, withdrawDelegationRewards] at h
    cases hfails : k.fails s addr validator with
    | true =>
      rw [hfails, if_pos rfl] at h
      cases h
    | false =>
      rw [hfails, if_neg Bool.false_ne_true] at h
      dsimp only at h
      split_ifs at h
      · cases h
        simp only [update_of_ne hw]
      · rw [ih h]
        simp only [update_of_ne hw]

/-- The rewards of some validators, withdrawn one after another: their sum, and the funds behind
them. -/
def withdrawAll (k : Staking) (addr : Address) : List Address → Funds → Option (Int × Funds)
  | [], s => some (0, s)
  | validator :: rest, s => do
    let (reward, s) ← k.withdrawDelegationRewards addr s validator
    let (total, s) ← withdrawAll k addr rest s
    return (reward k.bondDenom + total, s)

/-- The first of the delegations pay rewards that add up to what is lacking. -/
def Suffice (k : Staking) (addr : Address) (lacking : Int) (s : Funds) : Prop :=
  ∃ front total s', front <+: k.delegations addr ∧
    k.withdrawAll addr front s = some (total, s') ∧ lacking ≤ total

/-- The iteration reaches the amount exactly if the first of the rewards do. -/
theorem claimRewards_reaches_iff {amount : Int} {validators : List Address} {rewards : Int}
    {s : Funds} (hlt : rewards < amount) :
    (∃ rewards' s', k.claimRewards addr amount validators rewards s = some (rewards', s') ∧
        amount ≤ rewards') ↔
      ∃ front total s', front <+: validators ∧ k.withdrawAll addr front s = some (total, s') ∧
        amount ≤ rewards + total := by
  induction validators generalizing rewards s with
  | nil =>
    refine iff_of_false ?_ ?_
    · rintro ⟨_, _, ⟨⟩, hle⟩
      omega
    · rintro ⟨front, total, s', hfront, hall, hle⟩
      obtain rfl := List.prefix_nil.mp hfront
      cases hall
      omega
  | cons validator rest ih =>
    have hsplit : (∃ front total s', front <+: validator :: rest ∧
        k.withdrawAll addr front s = some (total, s') ∧ amount ≤ rewards + total) ↔
        ∃ reward t, k.withdrawDelegationRewards addr s validator = some (reward, t) ∧
          ∃ front total s', front <+: rest ∧ k.withdrawAll addr front t = some (total, s') ∧
            amount ≤ rewards + reward k.bondDenom + total := by
      constructor
      · rintro ⟨front, total, s', hfront, hall, hle⟩
        rcases List.prefix_cons_iff.mp hfront with rfl | ⟨front, rfl, hrest⟩
        · cases hall
          omega
        simp only [withdrawAll, Option.bind_eq_bind, Option.bind_eq_some_iff] at hall
        obtain ⟨⟨reward, t⟩, hfirst, ⟨total', s''⟩, hall, hsum⟩ := hall
        cases hsum
        dsimp only at hle
        exact ⟨reward, t, hfirst, front, total', s'', hrest, hall, by omega⟩
      · rintro ⟨reward, t, hfirst, front, total, s', hfront, hall, hle⟩
        refine ⟨validator :: front, reward k.bondDenom + total, s',
          List.cons_prefix_cons.mpr ⟨rfl, hfront⟩, ?_, by omega⟩
        rw [withdrawAll, hfirst, Option.bind_eq_bind, Option.bind_some]
        simp only [hall]
        rfl
    rw [hsplit, claimRewards]
    cases hfirst : k.withdrawDelegationRewards addr s validator with
    | none => simp
    | some r =>
      obtain ⟨reward, t⟩ := r
      dsimp only
      by_cases hreach : amount ≤ rewards + reward k.bondDenom
      · rw [if_pos hreach]
        refine iff_of_true ⟨_, _, rfl, hreach⟩ ⟨reward, t, rfl, [], 0, t, List.nil_prefix, rfl, ?_⟩
        omega
      · rw [if_neg hreach, ih (not_le.mp hreach)]
        refine ⟨fun h => ⟨reward, t, rfl, h⟩, ?_⟩
        rintro ⟨_, _, ⟨⟩, h⟩
        exact h

/-- The claim covers the fee, or fails without a change, exactly if the rewards are paid to the
account itself, or they are not needed because the balance covers the fee, or they do not
suffice. -/
theorem claim_covers_iff (k : Staking) (addr : Address) (fee : List (String × Int)) (s : Funds) :
    k.Covers addr fee s ↔ k.withdrawAddr addr = addr ∨
      ∀ amount, fee.lookup k.bondDenom = some amount → 0 ≤ s.balances addr k.bondDenom →
        amount ≤ s.balances addr k.bondDenom ∨
          ¬ k.Suffice addr (amount - s.balances addr k.bondDenom) s := by
  unfold Covers claimStakingRewardsIfNecessary
  cases hfee : fee.lookup k.bondDenom with
  | none => exact iff_of_true rfl (.inr nofun)
  | some amount =>
    dsimp only
    split_ifs with hneg hle
    · refine iff_of_true rfl (.inr ?_)
      intro _ _ hnonneg
      omega
    · refine iff_of_true ⟨amount, rfl, hle⟩ (.inr ?_)
      rintro _ ⟨⟩ _
      exact .inl hle
    have hpos : 0 < amount - s.balances addr k.bondDenom := by omega
    have hreach : (∃ rewards s', k.claimRewards addr (amount - s.balances addr k.bondDenom)
        (k.delegations addr) 0 s = some (rewards, s') ∧
          amount - s.balances addr k.bondDenom ≤ rewards) ↔
        k.Suffice addr (amount - s.balances addr k.bondDenom) s := by
      rw [claimRewards_reaches_iff hpos]
      simp only [zero_add]
      rfl
    unfold claimSufficientStakingRewards
    cases hclaim : k.claimRewards addr (amount - s.balances addr k.bondDenom)
        (k.delegations addr) 0 s with
    | none =>
      refine iff_of_true rfl (.inr ?_)
      rintro _ ⟨⟩ _
      refine .inr fun hsuffice => ?_
      obtain ⟨_, _, hsome, -⟩ := hreach.mpr hsuffice
      rw [hclaim] at hsome
      cases hsome
    | some r =>
      dsimp only
      split_ifs with hlt
      · refine iff_of_true rfl (.inr ?_)
        rintro _ ⟨⟩ _
        refine .inr fun hsuffice => ?_
        obtain ⟨_, _, hsome, hle⟩ := hreach.mpr hsuffice
        rw [hclaim] at hsome
        cases hsome
        omega
      have hsuffice : k.Suffice addr (amount - s.balances addr k.bondDenom) s :=
        hreach.mp ⟨_, _, hclaim, not_lt.mp hlt⟩
      by_cases hw : k.withdrawAddr addr = addr
      · have hpaid := balance_of_claimRewards hw hclaim
        exact iff_of_true ⟨amount, rfl, by omega⟩ (.inl hw)
      · have hsame := balance_of_claimRewards_other (Ne.symm hw) hclaim
        refine iff_of_false ?_ ?_
        · rintro ⟨_, ⟨⟩, hcovers⟩
          rw [hsame] at hcovers
          exact hle hcovers
        · rintro (hown | hother)
          · exact hw hown
          · exact (hother amount rfl (not_lt.mp hneg)).elim hle fun hnot => hnot hsuffice

/-- A validator owes the delegator one coin, and the fee is one coin. -/
def owing (addr w : Address) : Staking × Funds :=
  (⟨"ahpx", fun _ => [.zero], fun a => if a = addr then w else a, fun _ _ _ => false⟩,
    ⟨fun _ _ => 0, fun _ _ _ => 1⟩)

/-- The account 1, whose rewards go to the account 2, is left without the coin. -/
theorem claim_pays_other :
    let r := (owing (.ofNat 1) (.ofNat 2)).1.claimStakingRewardsIfNecessary (.ofNat 1)
      [("ahpx", 1)] (owing (.ofNat 1) (.ofNat 2)).2
    r.1 = none ∧ r.2.balances (.ofNat 1) "ahpx" = 0 ∧ r.2.balances (.ofNat 2) "ahpx" = 1 := by
  decide

end Staking

end HyperPax.Ante
