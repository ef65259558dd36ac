/-
  Inflation/Periods.lean --- the periods of x/inflation.

  Source: x/inflation/v1/keeper/{hooks,inflation}.go, over x/epochs/keeper/abci.go.

  The module is called at the end of each epoch with the number of the next one.  An epoch in which
  inflation is disabled is counted as skipped; one with nothing to mint is not, although it passes.
  Other identifiers than `day` have no effect.
-/
import HyperPax.Epochs.Clock

set_option autoImplicit false

namespace HyperPax.Inflation

open Epochs

/-- What an epoch finds: the parameter, and what `CalculateEpochMintProvision` gives, in units of
`10^-18`. -/
structure Env where
  enableInflation : Bool
  epochMintProvision : Int

/-- The amount to mint: a third of the provision, rounded as `Quo` does, and truncated. -/
def Env.mintedCoin (env : Env) : Int := (env.epochMintProvision + 1) / 3 / 10 ^ 18

/-- The stored counters, and the number of epochs in which coins were minted. -/
structure State where
  period : Nat
  skippedEpochs : Nat
  minted : Nat

/-- `AfterEpochEnd`. -/
def State.afterEpochEnd (epochsPerPeriod : Int) (env : Env) (epochNumber : Int) (s : State) :
    State :=
  if env.enableInflation = false then { s with skippedEpochs := s.skippedEpochs + 1 }
  else if env.epochMintProvision ≤ 0 then s
  else
    { s with
      minted := if 0 < env.mintedCoin then s.minted + 1 else s.minted
      period :=
        if epochsPerPeriod < epochNumber - epochsPerPeriod * s.period - s.skippedEpochs then
          s.period + 1
        else s.period }

/-- A hook call of x/epochs. -/
def State.hook (epochsPerPeriod : Int) (env : Env) (s : State) : Hook → State
  | .afterEpochEnd epochNumber => s.afterEpochEnd epochsPerPeriod env epochNumber
  | .beforeEpochStart _ => s

/-- One block: the epoch entry, and the hooks it calls. -/
def beginBlock (epochsPerPeriod : Int) (c : EpochInfo × State) (b : Block × Env) :
    EpochInfo × State :=
  (c.1.beginBlocker b.1, (c.1.hooks b.1).foldl (State.hook epochsPerPeriod b.2) c.2)

/-- Every finished epoch was skipped or minted in, and the period says how often the minting ones
filled one. -/
structure Counted (n : Nat) (c : EpochInfo × State) (k : Nat) : Prop where
  started : c.1.Started k
  finished : c.2.skippedEpochs + c.2.minted = k - 1
  period : c.2.period = c.2.minted / n

variable {n k : Nat} {c : EpochInfo × State}

theorem Counted.period_succ (h : Counted n c (k + 1)) (hn : 0 < n) :
    (if (n : Int) < ((k + 1 : Nat) : Int) + 1 - n * c.2.period - c.2.skippedEpochs then
      c.2.period + 1 else c.2.period) = (c.2.minted + 1) / n := by
  have hfinished := h.finished
  have hdiv := Nat.div_add_mod c.2.minted n
  have hmod := Nat.mod_lt c.2.minted hn
  rw [h.period]
  have hle : c.2.minted / n * n ≤ c.2.minted + 1 := by
    rw [mul_comm]
    omega
  have hlt : c.2.minted + 1 < (c.2.minted / n + 1 + 1) * n := by
    rw [add_mul, add_mul, mul_comm]
    omega
  have hiff : (n : Int) < ((k + 1 : Nat) : Int) + 1 - n * (c.2.minted / n : Nat) -
      c.2.skippedEpochs ↔ (c.2.minted / n + 1) * n ≤ c.2.minted + 1 := by
    rw [add_mul, mul_comm (c.2.minted / n) n]
    zify at hfinished ⊢
    push_cast [Nat.add_sub_cancel] at hfinished ⊢
    omega
  split_ifs with htest
  · exact (Nat.div_eq_of_lt_le (hiff.mp htest) hlt).symm
  · exact (Nat.div_eq_of_lt_le hle (not_le.mp (mt hiff.mpr htest))).symm

theorem Counted.beginBlock (h : Counted n c k) (hn : 0 < n) (b : Block × Env)
    (hmints : b.2.enableInflation → 0 < b.2.mintedCoin) :
    ∃ k', Counted n (beginBlock n c b) k' := by
  unfold Inflation.beginBlock
  rcases h.started.hooks_cases (b := b.1) with
    ⟨rfl, hnext, hhooks⟩ | ⟨hpos, hnext, hhooks⟩ | ⟨hsame, hhooks⟩
  · rw [hhooks]
    exact ⟨1, hnext, h.finished, h.period⟩
  · obtain ⟨k, rfl⟩ := Nat.exists_eq_succ_of_ne_zero hpos.ne'
    have hfinished := h.finished
    rw [hhooks]
    dsimp only [List.foldl_cons, List.foldl_nil, State.hook, State.afterEpochEnd]
    cases henabled : b.2.enableInflation with
    | false => exact ⟨_, hnext, by simp; omega, h.period⟩
    | true =>
      have hcoin := hmints henabled
      have hprovision : ¬ b.2.epochMintProvision ≤ 0 := by
        unfold Env.mintedCoin at hcoin
        omega
      rw [if_neg Bool.noConfusion, if_neg hprovision, if_pos hcoin]
      exact ⟨_, hnext, by dsimp only; omega, h.period_succ hn⟩
  · rw [hhooks, hsame]
    exact ⟨k, h⟩

/-- From genesis, with a constant number of epochs per period: as long as no enabled epoch has
nothing to mint, the period counts the epochs that minted. -/
theorem period_counts_minted (n : Nat) (hn : 0 < n) (e : EpochInfo)
    (hnew : e.epochCountingStarted = false) (blocks : List (Block × Env))
    (hmints : ∀ b ∈ blocks, b.2.enableInflation → 0 < b.2.mintedCoin) :
    (blocks.foldl (beginBlock n) (e, ⟨0, 0, 0⟩)).2.period =
      (blocks.foldl (beginBlock n) (e, ⟨0, 0, 0⟩)).2.minted / n := by
  have hcounted : ∃ k, Counted n (blocks.foldl (beginBlock n) (e, ⟨0, 0, 0⟩)) k := by
    refine List.foldlRecOn (motive := fun c => ∃ k, Counted n c k) blocks (beginBlock n)
      ⟨0, hnew, rfl, (Nat.zero_div n).symm⟩ ?_
    rintro c ⟨k, h⟩ b hb
    exact h.beginBlock hn b (hmints b hb)
  obtain ⟨k, h⟩ := hcounted
  exact h.period

/-- An entry that starts at 100 with epochs of 10, and two blocks that end the first two epochs. -/
def twoEpochs (first second : Env) : EpochInfo × State :=
  [(⟨105, 1⟩, first), (⟨111, 2⟩, first), (⟨121, 3⟩, second)].foldl (beginBlock 2)
    (⟨"day", 100, 10, 0, 0, false, 0⟩, ⟨0, 0, 0⟩)

theorem period_after_two : (twoEpochs ⟨false, 0⟩ ⟨true, 3 * 10 ^ 18⟩).2.period = 0 :=
  (period_counts_minted 2 (by decide) _ rfl _ (by decide)).trans (by decide)

/-- An enabled epoch without a provision is not counted: the period passes after one minting
epoch of two. -/
theorem period_early : (twoEpochs ⟨true, 0⟩ ⟨true, 3 * 10 ^ 18⟩).2 = ⟨1, 0, 1⟩ :=
  rfl

end HyperPax.Inflation
