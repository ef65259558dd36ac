/-
  Base/Bank.lean --- the bank's ledger of the EVM denomination.

  The bank module is third-party code; what the development uses of it is the
  contract of a coin transfer: it moves exactly the amount, or it fails and
  changes nothing.  It fails when the sender's balance is too small and may fail
  for reasons of its own (a blocked recipient, a send-enabled flag, coins locked by a
  vesting schedule); those reasons are the oracle `refuses`.
-/
import HyperPax.Base.Address
import HyperPax.Lib.Action

set_option autoImplicit false

namespace HyperPax

open Lib Function

/-! ## Ledgers -/

/-- Balances of one asset. -/
abbrev Ledger : Type := Address → Nat

namespace Ledger

/-- Take `n` from `src` and give it to `dst`. -/
def transfer (l : Ledger) (src dst : Address) (n : Nat) : Ledger :=
  let debited := update l src (l src - n)
  update debited dst (debited dst + n)

variable (l : Ledger) {src dst a : Address} {n : Nat}

theorem transfer_apply (src dst : Address) (n : Nat) (a : Address) : l.transfer src dst n a =
      if a = dst then (if a = src then l src - n else l a) + n
      else if a = src then l src - n else l a := by
  simp only [transfer, update_apply]
  by_cases h : a = dst
  · subst h
    simp
  · simp [h]

theorem transfer_other (n : Nat) (hs : a ≠ src) (hd : a ≠ dst) : l.transfer src dst n a = l a := by
  simp [transfer_apply, hs, hd]

theorem transfer_src (n : Nat) (h : src ≠ dst) : l.transfer src dst n src = l src - n := by
  simp [transfer_apply, h]

theorem transfer_dst (n : Nat) (h : src ≠ dst) : l.transfer src dst n dst = l dst + n := by
  simp [transfer_apply, h.symm]

theorem transfer_self (h : n ≤ l src) : l.transfer src src n = l := by
  funext a
  rw [transfer_apply]
  by_cases ha : a = src
  · subst ha
    simp only [if_true]
    omega
  · simp [ha]

theorem transfer_zero (src dst : Address) : l.transfer src dst 0 = l := by
  funext a
  rw [transfer_apply]
  by_cases hs : a = src
  · subst hs
    simp
  · simp [hs]

theorem le_transfer_add (src dst a : Address) (n : Nat) : l a ≤ l.transfer src dst n a + n := by
  rw [transfer_apply]
  by_cases hs : a = src
  · subst hs
    split <;> rw [if_pos rfl] <;> omega
  · rw [if_neg hs]
    split <;> omega

theorem transfer_int (dst a : Address) (h : n ≤ l src) : (l.transfer src dst n a : Int) =
      l a - (if a = src then (n : Int) else 0) + (if a = dst then (n : Int) else 0) := by
  rw [transfer_apply]
  by_cases hs : a = src
  · subst hs
    simp only [if_true]
    split <;> omega
  · simp only [if_neg hs]
    split <;> omega

/-- `l'` comes from `l` by covered transfers between the accounts of a list. -/
inductive Moves (among : List Address) (l : Ledger) : Ledger → Prop where
  | refl : Moves among l l
  | transfer {l' : Ledger} {src dst : Address} {n : Nat} : Moves among l l' → src ∈ among →
      dst ∈ among → n ≤ l' src → Moves among l (l'.transfer src dst n)

theorem Moves.other {among : List Address} {l l' : Ledger} (h : Moves among l l') (ha : a ∉ among) :
    l' a = l a := by
  induction h with
  | refl => rfl
  | transfer _ hsrc hdst _ ih =>
    rw [transfer_other _ _ (ne_of_mem_of_not_mem hsrc ha).symm
      (ne_of_mem_of_not_mem hdst ha).symm, ih]

end Ledger

/-! ## Sends -/

/-- Why a send failed: the bank declined it, or the sender is short. -/
inductive BankError where
  | refused (src dst : Address) (amount : Nat)
  | insufficientFunds (src : Address) (amount : Nat)
deriving DecidableEq

/-- The reasons of the bank's own to decline a send. -/
abbrev Refusal : Type := Address → Address → Nat → Bool

/-- The two writes of a transfer: the sender's balance, then the recipient's. -/
def moveCoins {ε : Type} (src dst : Address) (n : Nat) : Action Ledger ε Unit := do
  .modify fun l => update l src (l src - n)
  .modify fun l => update l dst (l dst + n)

/-- `SendCoins` of the EVM denomination. -/
def sendCoins (refuses : Refusal) (src dst : Address) (n : Nat) : Action Ledger BankError Unit := do
  .rejectIf (refuses src dst n) (.refused src dst n)
  let l ← .gets id
  .rejectIf (l src < n) (.insufficientFunds src n)
  moveCoins src dst n

theorem sendCoins_cases (refuses : Refusal) (src dst : Address) (n : Nat) (l : Ledger) :
    (¬ (refuses src dst n = false ∧ n ≤ l src) ∧
        ∃ e, (sendCoins refuses src dst n).run l = (l, .error e)) ∨
      (refuses src dst n = false ∧ n ≤ l src ∧
        (sendCoins refuses src dst n).run l = (l.transfer src dst n, .ok ())) := by
  simp only [sendCoins, Action.run_rejectIf_bind, Action.run_gets_bind, id]
  by_cases hr : refuses src dst n
  · exact .inl ⟨fun h => by simp [h.1] at hr, _, by rw [if_pos hr]⟩
  rw [if_neg hr]
  by_cases hl : l src < n
  · exact .inl ⟨fun h => absurd h.2 (not_le.mpr hl), _, by rw [if_pos hl]⟩
  · rw [if_neg hl]
    exact .inr ⟨by simpa using hr, by omega, rfl⟩

end HyperPax
