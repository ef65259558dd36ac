/-
  Evm/Estimate.lean --- estimating the gas of a call.

  Source: x/evm/keeper/grpc_query.go (EstimateGasInternal), x/evm/types/utils.go (BinSearch).

  The search is over 64-bit words, and its midpoint is the half of a sum that may wrap.
-/
import Mathlib

set_option autoImplicit false

namespace HyperPax.Evm

/-- A message: rejected whatever the gas, or run with success from some allowance on, which covers
the intrinsic gas. -/
structure Message where
  rejected : Bool
  succeeds : Nat → Bool
  mono : ∀ g g', g ≤ g' → succeeds g → succeeds g'
  intrinsic : ∀ g, succeeds g → 21000 ≤ g

/-- `executable`: an error, or whether the message failed. -/
def Message.executable (msg : Message) (gas : Nat) : Option Bool :=
  if msg.rejected then none else some (!msg.succeeds gas)

/-- `BinSearch`, for so many iterations; an error is `some none`. -/
def binSearch (executable : Nat → Option Bool) : Nat → Nat → Nat → Option (Option Nat)
  | 0, _, _ => none
  | fuel + 1, lo, hi =>
    if (lo + 1) % 2 ^ 64 < hi then
      let mid := (hi + lo) % 2 ^ 64 / 2
      match executable mid with
      | none => some none
      | some true => binSearch executable fuel mid hi
      | some false => binSearch executable fuel lo mid
    else some (some hi)

/-- The gas of the arguments, the maximum of a block (if positive) and the cap. -/
structure Request where
  gas : Option Nat
  maxGas : Int
  gasCap : Nat
  gasCap_ge : 21000 ≤ gasCap
  gasCap_lt : gasCap < 2 ^ 64

/-- The highest allowance. -/
def Request.highest (r : Request) : Nat :=
  let blockGas := if 0 < r.maxGas then r.maxGas.toNat else r.gasCap
  min ((r.gas.filter (21000 ≤ ·)).getD blockGas) r.gasCap

/-- `EstimateGasInternal`, from the highest allowance on. -/
def estimateGasInternal (executable : Nat → Option Bool) (highest fuel : Nat) :
    Option (Option Nat) :=
  match binSearch executable fuel (21000 - 1) highest with
  | some (some gas) =>
    if gas = highest then
      match executable gas with
      | some false => some (some gas)
      | _ => some none
    else some (some gas)
  | other => other

/-- `EstimateGas`. -/
def Request.estimateGas (r : Request) (msg : Message) (fuel : Nat) : Option (Option Nat) :=
  estimateGasInternal msg.executable r.highest fuel

/-- An error if the message fails at the highest allowance, or the least allowance that suffices. -/
def Message.Estimated (msg : Message) (highest : Nat) : Option Nat → Prop
  | none => msg.executable highest ≠ some false
  | some gas => IsLeast {g | 21000 ≤ g ∧ msg.executable g = some false} gas

variable {msg : Message} {executable : Nat → Option Bool} {fuel lo hi highest gas : Nat}

/-! ## The search -/

section

variable (hhi : hi ≤ 2 ^ 63) (hlo : lo < 2 ^ 63)

include hhi hlo

theorem isSome_binSearch (hfuel : hi ≤ lo + fuel + 1) :
    (binSearch executable (fuel + 1) lo hi).isSome := by
  induction fuel generalizing lo hi with
  | zero =>
    rw [binSearch, if_neg (by omega)]
    rfl
  | succ _ ih =>
    rw [binSearch]
    split
    · dsimp only
      split
      · rfl
      · exact ih hhi (by omega) (by omega)
      · exact ih (by omega) hlo (by omega)
    · rfl

theorem binSearch_le (h : binSearch executable fuel lo hi = some (some gas)) : gas ≤ hi := by
  induction fuel generalizing lo hi with
  | zero => cases h
  | succ _ ih =>
    rw [binSearch] at h
    split at h
    · dsimp only at h
      split at h
      · cases h
      · exact ih hhi (by omega) h
      · exact (ih (by omega) hlo h).trans (by omega)
    · cases h
      exact le_refl _

theorem binSearch_of_failed (hfuel : hi ≤ lo + fuel + 1)
    (h : ∀ gas < hi, executable gas = some true) :
    binSearch executable (fuel + 1) lo hi = some (some hi) := by
  induction fuel generalizing lo with
  | zero => rw [binSearch, if_neg (by omega)]
  | succ _ ih =>
    rw [binSearch]
    split
    · have hmid := h ((hi + lo) % 2 ^ 64 / 2) (by omega)
      dsimp only
      rw [hmid]
      exact ih (by omega) (by omega)
    · rfl

end

theorem isSome_estimateGasInternal (hhi : highest ≤ 2 ^ 63) :
    (estimateGasInternal executable highest (highest + 1)).isSome := by
  have hsome : (binSearch executable (highest + 1) (21000 - 1) highest).isSome :=
    isSome_binSearch hhi (by decide) (by omega)
  obtain ⟨answer, hanswer⟩ := Option.isSome_iff_exists.mp hsome
  rw [estimateGasInternal, hanswer]
  cases answer with
  | none => rfl
  | some =>
    dsimp only
    split
    · split <;> rfl
    · rfl

theorem Message.fails_of_le (hlo : msg.succeeds lo = false) {g : Nat} (hg : g ≤ lo) :
    msg.succeeds g = false := by
  rw [Bool.eq_false_iff] at hlo ⊢
  exact mt (msg.mono g lo hg) hlo

theorem binSearch_least (hrun : msg.rejected = false) (hfuel : hi ≤ lo + fuel + 1)
    (hhi : hi ≤ 2 ^ 63) (hlo : lo < 2 ^ 63) (hfails : msg.succeeds lo = false)
    (hlast : hi = highest ∨ msg.succeeds hi) :
    ∃ gas, binSearch msg.executable (fuel + 1) lo hi = some (some gas) ∧
      (gas = highest ∨ msg.succeeds gas) ∧ ∀ g < gas, msg.succeeds g = false := by
  induction fuel generalizing lo hi with
  | zero =>
    rw [binSearch, if_neg (by omega)]
    exact ⟨hi, rfl, hlast, fun g hg => msg.fails_of_le hfails (by omega)⟩
  | succ fuel ih =>
    rw [binSearch]
    by_cases hmore : (lo + 1) % 2 ^ 64 < hi
    · rw [if_pos hmore]
      simp only [Message.executable, hrun]
      cases hmid : msg.succeeds ((hi + lo) % 2 ^ 64 / 2) with
      | false => exact ih (by omega) hhi (by omega) hmid hlast
      | true => exact ih (by omega) (by omega) hlo hfails (.inr hmid)
    · rw [if_neg hmore]
      exact ⟨hi, rfl, hlast, fun g hg => msg.fails_of_le hfails (by omega)⟩

/-- A message that needs more gas than there is. -/
def neverSucceeds : Message := ⟨false, fun _ => false, fun _ _ _ h => h, by simp⟩

theorem binSearch_neverSucceeds (hhi : 2 ^ 63 < hi) (hlt : hi < 2 ^ 64) (hlo : lo + 2 ≤ hi) :
    binSearch neverSucceeds.executable fuel lo hi = none := by
  induction fuel generalizing lo with
  | zero => rfl
  | succ fuel ih =>
    rw [binSearch, if_pos (by omega)]
    exact ih (by omega)

theorem Request.estimateGas_neverSucceeds {r : Request} (h : 2 ^ 63 < r.highest) :
    r.estimateGas neverSucceeds fuel = none := by
  have hlt : r.highest < 2 ^ 64 := (min_le_right _ _).trans_lt r.gasCap_lt
  rw [Request.estimateGas, estimateGasInternal, binSearch_neverSucceeds h hlt (by omega)]

/-- The estimation ends with the right answer for every message exactly if the highest allowance is
at most `2^63`. -/
theorem estimateGas_least_iff (r : Request) :
    (∀ msg : Message, ∃ fuel answer, r.estimateGas msg fuel = some answer ∧
      msg.Estimated r.highest answer) ↔ r.highest ≤ 2 ^ 63 := by
  constructor
  · intro h
    by_contra hwrap
    obtain ⟨fuel, answer, hanswer, -⟩ := h neverSucceeds
    rw [Request.estimateGas_neverSucceeds (not_le.mp hwrap)] at hanswer
    cases hanswer
  intro hle msg
  cases hrun : msg.rejected with
  | true =>
    have hexec : ∀ g, msg.executable g = none := fun g => by rw [Message.executable, if_pos hrun]
    refine ⟨1, none, ?_, by simp [Message.Estimated, hexec]⟩
    simp only [Request.estimateGas, estimateGasInternal, binSearch, hexec]
    split_ifs <;> simp
  | false =>
    have hexec : ∀ g, msg.executable g = some (!msg.succeeds g) := fun g => by
      simp [Message.executable, hrun]
    have hfails : msg.succeeds (21000 - 1) = false := by
      rw [Bool.eq_false_iff]
      exact mt (msg.intrinsic _) (by decide)
    have hfuel : r.highest ≤ 21000 - 1 + r.highest + 1 := by omega
    obtain ⟨gas, hsearch, hlast, hbelow⟩ :=
      binSearch_least hrun hfuel hle (by decide) hfails (.inl rfl)
    have hleast : msg.succeeds gas → msg.Estimated r.highest (some gas) := fun hok =>
      ⟨⟨msg.intrinsic gas hok, by rw [hexec, hok]; rfl⟩, fun g hg => by
        by_contra hlt
        have hg := hg.2
        rw [hexec, hbelow g (by omega)] at hg
        cases hg⟩
    refine ⟨r.highest + 1, ?_⟩
    rw [Request.estimateGas, estimateGasInternal, hsearch]
    dsimp only
    split_ifs with hgas
    · cases hok : msg.succeeds gas with
      | false =>
        refine ⟨none, by rw [hexec, hok]; rfl, ?_⟩
        rw [Message.Estimated, ← hgas, hexec, hok]
        simp
      | true => exact ⟨_, by rw [hexec, hok]; rfl, hleast hok⟩
    · exact ⟨_, rfl, hleast (hlast.resolve_left hgas)⟩

/-- An allowance of `2^63 + 1`, and no answer however long the search runs. -/
theorem estimateGas_runs_on :
    let r : Request := ⟨some (2 ^ 63 + 1), 0, 2 ^ 64 - 1, by decide, by decide⟩
    r.highest = 2 ^ 63 + 1 ∧ ∀ fuel, r.estimateGas neverSucceeds fuel = none :=
  ⟨rfl, fun _ => Request.estimateGas_neverSucceeds (by decide)⟩

end HyperPax.Evm
