/-
  PaxSpot/OracleAdapter.lean --- the price of a market, with a fallback.

  Source: contracts/paxspot/src/core/OracleAdapter.sol.

  Pyth is read inside a `try`, which covers the call and nothing else: the age of the answer and
  the scaling of its exponent are computed in the success branch.  A checked operation that
  overflows there reverts the whole call, and the validator oracle is never asked.
-/
import HyperPax.PaxSpot.Types

set_option autoImplicit false

namespace HyperPax.PaxSpot

open Lib Option

/-- The fields of `IPyth.Price` that are read. -/
structure PythPrice where
  price : Sint 64
  expo : Sint 32
  publishTime : Uint 256

/-- The block time and what the oracles answer; `none` is a revert. -/
structure Feeds where
  timestamp : Uint 256
  getPriceUnsafe : Address → BitVec 256 → Option PythPrice
  getValidatorPrice : BitVec 256 → Option (Sint 256 × Uint 256)

/-- `MarketConfig`. -/
structure MarketConfig where
  pythFeedId : BitVec 256
  vomMarketId : BitVec 256
  active : Bool

/-- The storage of the adapter. -/
structure OracleAdapter where
  pyth : Address
  staleThreshold : Uint 256
  minVomQuorum : Uint 256
  markets : MarketId → MarketConfig
  paused : Bool

def confidenceHigh : Uint 256 := .truncate (10 ^ 18)

def confidenceReduced : Uint 256 := .truncate (7 * 10 ^ 17)

/-- `int256(10 ** n)`: the power is checked, the cast is not. -/
def powerOfTen (n : Nat) : Option (Sint 256) :=
  (Uint.check (10 ^ n) : Option (Uint 256)).map int256

/-- `_normalizePythPrice`; `none` is a panic. -/
def normalizePythPrice (price : Sint 64) (expo : Sint 32) : Option (Sint 256) :=
  if price.val ≤ 0 then some .zero
  else do
    let normalized : Sint 256 := .wrap price.val
    let diff ← (.wrap 18 : Sint 32).add? expo
    if 0 < diff.val then
      let scale ← powerOfTen diff.val.toNat
      normalized.mul? scale
    else if diff.val < 0 then
      let opposite ← diff.neg?
      let scale ← powerOfTen opposite.val.toNat
      return .wrap (normalized.val.tdiv scale.val)
    else return normalized

/-- `_tryVOM`. -/
def Feeds.tryVOM (w : Feeds) (vomMarketId : BitVec 256) : Sint 256 × Uint 256 :=
  (w.getValidatorPrice vomMarketId).getD (.zero, .zero)

namespace OracleAdapter

variable (a : OracleAdapter) (w : Feeds) (m : MarketId)

/-- `_tryPyth`. -/
def tryPyth (feedId : BitVec 256) : Except Revert (Sint 256 × Bool) :=
  if a.pyth = .zero then .ok (.zero, false)
  else
    match w.getPriceUnsafe a.pyth feedId with
    | none => .ok (.zero, false)
    | some p => do
      let age ← checked (w.timestamp.sub? p.publishTime)
      if age.val ≤ a.staleThreshold.val then
        let price ← checked (normalizePythPrice p.price p.expo)
        return (price, true)
      else return (.zero, false)

/-- The rest of `getPrice`: the price of Pyth if it is fresh, or that of the validators. -/
def orVOM (pyth : Sint 256 × Bool) : Except Revert (Sint 256 × Uint 256 × Bool) :=
  if pyth.2 then .ok (pyth.1, confidenceHigh, false)
  else
    let vom := w.tryVOM (a.markets m).vomMarketId
    if vom.2.val ≥ a.minVomQuorum.val then .ok (vom.1, confidenceReduced, true)
    else .error (.oracleUnavailable m)

/-- `getPrice`. -/
def getPrice : Except Revert (Sint 256 × Uint 256 × Bool) := do
  require (a.paused = false) .enforcedPause
  require (a.markets m).active (.marketNotActive m)
  let pyth ← a.tryPyth w (a.markets m).pythFeedId
  a.orVOM w m pyth

end OracleAdapter

/-! ## When scaling does not panic -/

/-- The power of ten is a word, and the product with it, read as an `int256`, fits. -/
def PythPrice.Scales (p : PythPrice) : Prop :=
  0 < p.price.val → -77 ≤ 18 + p.expo.val ∧ 18 + p.expo.val ≤ 77 ∧
    (0 < 18 + p.expo.val →
      Sint.Fits 256 (p.price.val * (.wrap (10 ^ (18 + p.expo.val).toNat) : Sint 256).val))

/-- The answer is not from the future, and if it is fresh it scales. -/
def PythPrice.Reads (p : PythPrice) (timestamp staleThreshold : Uint 256) : Prop :=
  p.publishTime.val ≤ timestamp.val ∧
    (timestamp.val - p.publishTime.val ≤ staleThreshold.val → p.Scales)

theorem powerOfTen_of_le {n : Nat} (h : n ≤ 77) : powerOfTen n = some (.wrap (10 ^ n)) := by
  have hlt : 10 ^ n < 2 ^ 256 := lt_of_le_of_lt (Nat.pow_le_pow_right (by decide) h) (by norm_num)
  rw [powerOfTen, Uint.check_of_lt hlt, map_some, int256]
  push_cast
  rfl

theorem powerOfTen_of_lt {n : Nat} (h : 77 < n) : powerOfTen n = none := by
  have hle : 2 ^ 256 ≤ 10 ^ n :=
    le_trans (by norm_num : 2 ^ 256 ≤ 10 ^ 78) (Nat.pow_le_pow_right (by decide) h)
  rw [powerOfTen, Uint.check, dif_neg (not_lt.mpr hle)]
  rfl

theorem isSome_normalizePythPrice (p : PythPrice) :
    (normalizePythPrice p.price p.expo).isSome ↔ p.Scales := by
  unfold normalizePythPrice PythPrice.Scales
  by_cases hpos : p.price.val ≤ 0
  · rw [if_pos hpos]
    exact iff_of_true rfl fun h => absurd h (not_lt.mpr hpos)
  rw [if_neg hpos, imp_iff_right (not_le.mp hpos)]
  have heighteen : (.wrap 18 : Sint 32).val = 18 := by decide
  have hexpo := p.expo.fits
  unfold Sint.Fits at hexpo
  have hprice : (.wrap p.price.val : Sint 256).val = p.price.val := by
    have hfits := p.price.fits
    unfold Sint.Fits at hfits
    refine Sint.wrap_of_fits (by decide) ⟨?_, ?_⟩
    · norm_num at hfits ⊢
      omega
    · norm_num at hfits ⊢
      omega
  cases hdiff : (.wrap 18 : Sint 32).add? p.expo with
  | none =>
    -- the sum exceeds an `int32`
    refine iff_of_false Bool.false_ne_true fun h => ?_
    have hfits : Sint.Fits 32 (18 + p.expo.val) := by
      norm_num [Sint.Fits] at hexpo ⊢
      omega
    rw [Sint.add?, heighteen, Sint.check_of_fits hfits] at hdiff
    cases hdiff
  | some diff =>
    have hval := Sint.add?_eq_some.mp hdiff
    rw [heighteen] at hval
    rw [← hval]
    dsimp only [bind_eq_bind, bind_some]
    by_cases hup : 0 < diff.val
    · rw [if_pos hup, imp_iff_right hup]
      by_cases hle : diff.val ≤ 77
      · rw [powerOfTen_of_le (by omega), bind_some, Sint.mul?, hprice, Sint.check, isSome_dite]
        exact ⟨fun h => ⟨by omega, hle, h⟩, fun h => h.2.2⟩
      · rw [powerOfTen_of_lt (by omega)]
        exact iff_of_false Bool.false_ne_true fun h => hle h.2.1
    rw [if_neg hup]
    rw [iff_true_intro fun h => absurd h hup, and_true, and_iff_left (by omega)]
    by_cases hdown : diff.val < 0
    · have hneg : Sint.Fits 32 (-diff.val) := by
        norm_num [Sint.Fits] at hexpo ⊢
        omega
      rw [if_pos hdown, Sint.neg?, Sint.check_of_fits hneg, bind_some]
      dsimp only
      by_cases hle : -77 ≤ diff.val
      · rw [powerOfTen_of_le (by omega)]
        exact iff_of_true rfl hle
      · rw [powerOfTen_of_lt (by omega)]
        exact iff_of_false Bool.false_ne_true hle
    · rw [if_neg hdown]
      exact iff_of_true rfl (by omega)

/-! ## When a price is always found -/

namespace OracleAdapter

/-- Pyth, if there is one and it answers, can be read. -/
def PythReads (a : OracleAdapter) (w : Feeds) (feedId : BitVec 256) : Prop :=
  ∀ p, a.pyth ≠ .zero → w.getPriceUnsafe a.pyth feedId = some p →
    p.Reads w.timestamp a.staleThreshold

theorem tryPyth_cases (a : OracleAdapter) (w : Feeds) (feedId : BitVec 256) :
    (a.PythReads w feedId ∧ ∃ r, a.tryPyth w feedId = .ok r) ∨
      (¬ a.PythReads w feedId ∧ a.tryPyth w feedId = .error .panic) := by
  unfold tryPyth PythReads
  by_cases hzero : a.pyth = .zero
  · rw [if_pos hzero]
    exact .inl ⟨fun p h => absurd hzero h, _, rfl⟩
  rw [if_neg hzero]
  cases hp : w.getPriceUnsafe a.pyth feedId with
  | none =>
    refine .inl ⟨fun p _ h => ?_, _, rfl⟩
    cases h
  | some p =>
    have hreads : (∀ q, a.pyth ≠ .zero → some p = some q →
        q.Reads w.timestamp a.staleThreshold) ↔ p.Reads w.timestamp a.staleThreshold :=
      ⟨fun h => h p hzero rfl, fun h q _ hq => Option.some.inj hq ▸ h⟩
    rw [hreads, PythPrice.Reads]
    dsimp only
    cases hage : w.timestamp.sub? p.publishTime with
    | none =>
      refine .inr ⟨fun h => ?_, rfl⟩
      rw [Uint.sub?, if_pos h.1, Uint.check_of_lt
        (lt_of_le_of_lt (Nat.sub_le _ _) w.timestamp.lt_two_pow)] at hage
      cases hage
    | some age =>
      have hval := Uint.sub?_eq_some.mp hage
      have hsub : w.timestamp.val - p.publishTime.val = age.val := by omega
      rw [hsub, ← isSome_normalizePythPrice, orRevert_some_bind]
      by_cases hfresh : age.val ≤ a.staleThreshold.val
      · rw [if_pos hfresh]
        cases hnormal : normalizePythPrice p.price p.expo with
        | none => exact .inr ⟨fun h => Bool.false_ne_true (h.2 hfresh), rfl⟩
        | some z => exact .inl ⟨⟨by omega, fun _ => rfl⟩, (z, true), rfl⟩
      · rw [if_neg hfresh]
        exact .inl ⟨⟨by omega, fun h => absurd h hfresh⟩, _, rfl⟩

theorem orVOM_total (a : OracleAdapter) (w : Feeds) (m : MarketId) (pyth : Sint 256 × Bool) :
    (Succeeds (a.orVOM w m pyth) ∨ a.orVOM w m pyth = .error (.oracleUnavailable m)) ∧
      ∀ price quorum, w.getValidatorPrice (a.markets m).vomMarketId = some (price, quorum) →
        a.minVomQuorum.val ≤ quorum.val → Succeeds (a.orVOM w m pyth) := by
  unfold orVOM Feeds.tryVOM
  split
  · exact ⟨.inl (.ok _), fun _ _ _ _ => .ok _⟩
  dsimp only
  constructor
  · split
    · exact .inl (.ok _)
    · exact .inr rfl
  · intro _ _ hvom hquorum
    rw [hvom, getD_some, if_pos hquorum]
    exact .ok _

/-- In an active market `getPrice` finds a price or says that the oracles are unavailable, and
finds one whenever enough validators attest, exactly if it is not paused and the answer of Pyth
can be read. -/
theorem getPrice_total_iff (a : OracleAdapter) (w : Feeds) (m : MarketId)
    (hactive : (a.markets m).active) :
    ((Succeeds (a.getPrice w m) ∨ a.getPrice w m = .error (.oracleUnavailable m)) ∧
      ∀ price quorum, w.getValidatorPrice (a.markets m).vomMarketId = some (price, quorum) →
        a.minVomQuorum.val ≤ quorum.val → Succeeds (a.getPrice w m)) ↔
    a.paused = false ∧ a.PythReads w (a.markets m).pythFeedId := by
  by_cases hpaused : a.paused = false
  · have hrun : a.getPrice w m = a.tryPyth w (a.markets m).pythFeedId >>= a.orVOM w m := by
      rw [getPrice, require, if_pos hpaused, require, if_pos hactive]
      rfl
    rw [hrun]
    rcases a.tryPyth_cases w (a.markets m).pythFeedId with
      ⟨hreads, ⟨z, fresh⟩, hok⟩ | ⟨hreads, hpanic⟩
    · refine iff_of_true ?_ ⟨hpaused, hreads⟩
      rw [hok]
      exact a.orVOM_total w m (z, fresh)
    rw [hpanic]
    refine iff_of_false ?_ fun h => hreads h.2
    rintro ⟨⟨r, hr⟩ | herr, -⟩
    · cases hr
    · cases herr
  · rw [getPrice, require, if_neg hpaused]
    refine iff_of_false ?_ fun h => hpaused h.1
    rintro ⟨⟨_, hr⟩ | herr, -⟩
    · cases hr
    · cases herr

/-- An adapter that asks for two validators, in a market with the feed zero. -/
def twoValidators : OracleAdapter :=
  ⟨.ofNat 1, .truncate 60, .truncate 2, fun _ => ⟨0, 0, true⟩, false⟩

/-- Three validators attest a price; Pyth answers with the given exponent and time. -/
def feeds (expo : Int) (publishTime : Nat) : Feeds :=
  ⟨.truncate 1000, fun _ _ => some ⟨.wrap 5, .wrap expo, .truncate publishTime⟩,
    fun _ => some (.wrap 7, .truncate 3)⟩

/-- An ordinary answer of Pyth is read. -/
theorem getPrice_of_pyth : ∃ r, twoValidators.getPrice (feeds (-8) 990) 0 = .ok r := by
  have hreads : twoValidators.PythReads (feeds (-8) 990) 0 := by
    intro _ _ hp
    cases hp
    exact ⟨by decide, fun _ _ => by decide⟩
  exact ((getPrice_total_iff twoValidators (feeds (-8) 990) 0 rfl).mpr ⟨rfl, hreads⟩).2 _ _ rfl
    (by decide)

/-- An answer from the future, and one with a large exponent: the call panics, although enough
validators attest. -/
theorem getPrice_panics : twoValidators.getPrice (feeds (-8) 1001) 0 = .error .panic ∧
    twoValidators.getPrice (feeds 60 990) 0 = .error .panic ∧
    twoValidators.minVomQuorum.val ≤ ((feeds 60 990).tryVOM 0).2.val := by
  decide +kernel

end OracleAdapter

end HyperPax.PaxSpot
