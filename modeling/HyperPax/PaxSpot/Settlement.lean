/-
  PaxSpot/Settlement.lean --- `SettlementEngine.sol`.

  Three mappings hold a user's position in a token: the collateral that was deposited, the
  signed virtual balance that trades move, and the net delta of the current
  epoch.  Only `deposit` and `withdraw` move ERC-20 tokens.

  An ERC-20 is third-party code; what the development uses of it is that a transfer
  moves exactly the amount or fails.  It may fail for reasons of its own (allowance,
  pause, a blocked account); those reasons are the oracle `declines`.
-/
import HyperPax.PaxSpot.Types
import HyperPax.Base.Bank

set_option autoImplicit false

namespace HyperPax.PaxSpot

open Lib Function Sint

/-- The storage of the contract.  `self` is `address(this)`. -/
structure Settlement where
  self : Address
  owner : Address
  matchingEngine : Address
  treasury : Address
  paused : Bool
  epochLength : Nat
  currentEpochStart : Nat
  epochCounter : Nat
  virtualBalances : Address → Address → Sint 256
  depositedCollateral : Address → Address → Uint 256
  epochNetDelta : Address → Address → Sint 256
  epochDirtyUsers : List Address
  isEpochDirty : Address → Bool
  supportedTokens : List Address
  isTokenSupported : Address → Bool

/-- `BPS_DENOMINATOR`. -/
def bpsDenominator : Nat := 10000

/-- `FAST_SETTLE_FEE_BPS`. -/
def fastSettleFeeBps : Uint 256 := ⟨1, by decide⟩

namespace Settlement

/-- The storage after construction: every mapping is unwritten. -/
def fresh (self owner : Address) (block epochLength : Nat) (treasury : Address) : Settlement where
  self := self
  owner := owner
  matchingEngine := .zero
  treasury := treasury
  paused := false
  epochLength := epochLength
  currentEpochStart := block
  epochCounter := 0
  virtualBalances := fun _ _ => .zero
  depositedCollateral := fun _ _ => .zero
  epochNetDelta := fun _ _ => .zero
  epochDirtyUsers := []
  isEpochDirty := fun _ => false
  supportedTokens := []
  isTokenSupported := fun _ => false

/-- The constructor. -/
def deploy (self owner : Address) (block epochLength : Nat) (treasury : Address) :
    Except Revert Settlement := do
  require (epochLength ≠ 0) .invalidEpochLength
  require (treasury ≠ .zero) .invalidAddress
  return fresh self owner block epochLength treasury

/-! ## Positions -/

/-- The tail of `updateVirtualBalance`: list a user once per epoch. -/
def markDirty (s : Settlement) (user : Address) : Settlement :=
  if s.isEpochDirty user then s
  else { s with
    epochDirtyUsers := s.epochDirtyUsers ++ [user]
    isEpochDirty := update s.isEpochDirty user true }

/-- `updateVirtualBalance`, for the matching engine only. -/
def updateVirtualBalance (s : Settlement) (sender user token : Address) (delta : Sint 256) :
    Except Revert Settlement := do
  require (sender = s.matchingEngine) .onlyMatchingEngine
  require (s.paused = false) .enforcedPause
  let balance ← checked ((s.virtualBalances user token).add? delta)
  let net ← checked ((s.epochNetDelta user token).add? delta)
  return markDirty { s with
    virtualBalances := write s.virtualBalances user token balance
    epochNetDelta := write s.epochNetDelta user token net } user

/-- The inner loop of `settleEpoch`. -/
def settleTokens (user : Address) (tokens : List Address) (net : Address → Address → Sint 256) :
    Address → Address → Sint 256 :=
  tokens.foldl (fun net token =>
    if (net user token).val ≠ 0 then write net user token .zero else net) net

/-- The outer loop of `settleEpoch`, over the dirty users. -/
def settleUsers (users : List Address) (s : Settlement) : Settlement :=
  users.foldl (fun s user =>
    { s with
      epochNetDelta := settleTokens user s.supportedTokens s.epochNetDelta
      isEpochDirty := update s.isEpochDirty user false }) s

/-- `settleEpoch`: the net deltas of the dirty users in the supported tokens are cleared. -/
def settleEpoch (s : Settlement) (block : Nat) : Except Revert Settlement := do
  require (s.paused = false) .enforcedPause
  require (¬ block < s.currentEpochStart + s.epochLength) .epochNotReady
  require (s.epochDirtyUsers ≠ []) .nothingToSettle
  return { settleUsers s.epochDirtyUsers s with
    epochDirtyUsers := []
    epochCounter := s.epochCounter + 1
    currentEpochStart := block }

/-- The fee of `fastSettle`: from the user to the treasury, when it is not zero. -/
def chargeFee (s : Settlement) (sender token : Address) (fee : Uint 256) :
    Except Revert Settlement :=
  if fee.val > 0 then do
    let debited ← checked ((s.virtualBalances sender token).sub? (int256 fee))
    let credited ← checked
      ((write s.virtualBalances sender token debited s.treasury token).add? (int256 fee))
    return { s with
      virtualBalances :=
        write (write s.virtualBalances sender token debited) s.treasury token credited }
  else return s

/-- `fastSettle`: the sender's net delta in a token is cleared, for a fee on its magnitude. -/
def fastSettle (s : Settlement) (sender token : Address) : Except Revert Settlement := do
  require (s.paused = false) .enforcedPause
  require (s.isTokenSupported token) (.tokenNotSupported token)
  require ((s.epochNetDelta sender token).val ≠ 0) .nothingToSettle
  let absNet ← magnitude (s.epochNetDelta sender token)
  let scaled ← checked (absNet.mul? fastSettleFeeBps)
  chargeFee { s with epochNetDelta := write s.epochNetDelta sender token .zero } sender token
    (.truncate (scaled.val / bpsDenominator))

/-- `getWithdrawable`: the collateral, as far as the virtual balance covers it. -/
def getWithdrawable (s : Settlement) (user token : Address) : Uint 256 :=
  let collateral := s.depositedCollateral user token
  let vBal := s.virtualBalances user token
  if (int256 collateral).val ≤ vBal.val then collateral
  else if vBal.val ≤ 0 then .zero
  else .truncate vBal.val.toNat

/-! ## Administration -/

def setMatchingEngine (s : Settlement) (sender matchingEngine : Address) :
    Except Revert Settlement := do
  require (sender = s.owner) (.ownableUnauthorizedAccount sender)
  require (matchingEngine ≠ .zero) .invalidAddress
  return { s with matchingEngine := matchingEngine }

def setTreasury (s : Settlement) (sender treasury : Address) : Except Revert Settlement := do
  require (sender = s.owner) (.ownableUnauthorizedAccount sender)
  require (treasury ≠ .zero) .invalidAddress
  return { s with treasury := treasury }

def setEpochLength (s : Settlement) (sender : Address) (epochLength : Nat) :
    Except Revert Settlement := do
  require (sender = s.owner) (.ownableUnauthorizedAccount sender)
  require (epochLength ≠ 0) .invalidEpochLength
  return { s with epochLength := epochLength }

/-- `addToken`. -/
def addToken (s : Settlement) (sender token : Address) : Except Revert Settlement := do
  require (sender = s.owner) (.ownableUnauthorizedAccount sender)
  require (token ≠ .zero) .invalidAddress
  require (s.isTokenSupported token = false) (.tokenAlreadySupported token)
  return { s with
    isTokenSupported := update s.isTokenSupported token true
    supportedTokens := s.supportedTokens ++ [token] }

def pause (s : Settlement) (sender : Address) : Except Revert Settlement := do
  require (sender = s.owner) (.ownableUnauthorizedAccount sender)
  require (s.paused = false) .enforcedPause
  return { s with paused := true }

def unpause (s : Settlement) (sender : Address) : Except Revert Settlement := do
  require (sender = s.owner) (.ownableUnauthorizedAccount sender)
  require s.paused .expectedPause
  return { s with paused := false }

end Settlement

/-! ## Tokens -/

/-- The reasons of a token's own to decline a transfer: token, source, destination,
amount. -/
abbrev Declines : Type := Address → Address → Address → Nat → Bool

/-- The contract with the balances of every ERC-20. -/
structure Vault where
  settlement : Settlement
  tokens : Address → Ledger

namespace Vault

/-- `safeTransfer` and `safeTransferFrom`. -/
def safeTransfer (declines : Declines) (tokens : Address → Ledger) (token src dst : Address)
    (amount : Uint 256) : Except Revert (Address → Ledger) := do
  require (declines token src dst amount.val = false) (.transferFailed token)
  require (amount.val ≤ tokens token src) (.transferFailed token)
  return update tokens token ((tokens token).transfer src dst amount.val)

/-- `deposit`. -/
def deposit (declines : Declines) (v : Vault) (sender token : Address) (amount : Uint 256) :
    Except Revert Vault := do
  let s := v.settlement
  require (s.paused = false) .enforcedPause
  require (s.isTokenSupported token) (.tokenNotSupported token)
  let tokens ← safeTransfer declines v.tokens token sender s.self amount
  let collateral ← checked ((s.depositedCollateral sender token).add? amount)
  let balance ← checked ((s.virtualBalances sender token).add? (int256 amount))
  return {
    tokens := tokens
    settlement := { s with
      depositedCollateral := write s.depositedCollateral sender token collateral
      virtualBalances := write s.virtualBalances sender token balance } }

/-- `withdraw`. -/
def withdraw (declines : Declines) (v : Vault) (sender token : Address) (amount : Uint 256) :
    Except Revert Vault := do
  let s := v.settlement
  require (s.paused = false) .enforcedPause
  require (s.isTokenSupported token) (.tokenNotSupported token)
  let available := s.getWithdrawable sender token
  require (¬ amount.val > available.val)
    (.withdrawExceedsAvailable sender token amount available)
  let collateral ← checked ((s.depositedCollateral sender token).sub? amount)
  let balance ← checked ((s.virtualBalances sender token).sub? (int256 amount))
  let tokens ← safeTransfer declines v.tokens token s.self sender amount
  -- the delta of the event
  let _ ← checked (int256 amount).neg?
  return {
    tokens := tokens
    settlement := { s with
      depositedCollateral := write s.depositedCollateral sender token collateral
      virtualBalances := write s.virtualBalances sender token balance } }

end Vault

/-! ## What a successful operation did -/

variable {s s' : Settlement} {v v' : Vault} {sender user token : Address} {declines : Declines}
  {amount : Uint 256}

/-- The fields that trading and settling leave alone. -/
structure Setup where
  self : Address
  owner : Address
  matchingEngine : Address
  treasury : Address
  paused : Bool
  supportedTokens : List Address
  isTokenSupported : Address → Bool

def Settlement.setup (s : Settlement) : Setup :=
  ⟨s.self, s.owner, s.matchingEngine, s.treasury, s.paused, s.supportedTokens, s.isTokenSupported⟩

/-- The users with a position of the current epoch, as a list and as flags. -/
def Settlement.dirty (s : Settlement) : List Address × (Address → Bool) :=
  (s.epochDirtyUsers, s.isEpochDirty)

theorem Settlement.markDirty_fields (s : Settlement) (user : Address) :
    (s.markDirty user).setup = s.setup ∧
      (s.markDirty user).depositedCollateral = s.depositedCollateral ∧
      (s.markDirty user).virtualBalances = s.virtualBalances ∧
      (s.markDirty user).epochNetDelta = s.epochNetDelta := by
  unfold markDirty
  split
  · exact ⟨rfl, rfl, rfl, rfl⟩
  · exact ⟨rfl, rfl, rfl, rfl⟩

theorem Settlement.updateVirtualBalance_ok {delta : Sint 256}
    (h : s.updateVirtualBalance sender user token delta = .ok s') :
    s'.setup = s.setup ∧ s'.depositedCollateral = s.depositedCollateral ∧
      (∀ u t, (s'.virtualBalances u t).val =
        (s.virtualBalances u t).val + if u = user ∧ t = token then delta.val else 0) ∧
      (∀ u t, (s'.epochNetDelta u t).val =
        (s.epochNetDelta u t).val + if u = user ∧ t = token then delta.val else 0) ∧
      s'.dirty = (s.markDirty user).dirty := by
  have h := of_require h
  have h := of_require h
  obtain ⟨balance, hbal, h⟩ := orRevert_bind_ok.mp h
  obtain ⟨net, hnet, h⟩ := orRevert_bind_ok.mp h
  cases h
  have hmark := markDirty_fields { s with
    virtualBalances := write s.virtualBalances user token balance
    epochNetDelta := write s.epochNetDelta user token net } user
  refine ⟨hmark.1, hmark.2.1, ?_, ?_, ?_⟩
  · rw [hmark.2.2.1]
    exact write_shift val s.virtualBalances (add?_eq_some.mp hbal)
  · rw [hmark.2.2.2]
    exact write_shift val s.epochNetDelta (add?_eq_some.mp hnet)
  · unfold markDirty
    split <;> rfl

theorem Settlement.settleTokens_apply (user : Address) (tokens : List Address)
    (net : Address → Address → Sint 256) (u t : Address) : settleTokens user tokens net u t =
      if u = user ∧ t ∈ tokens then .zero else net u t := by
  induction tokens generalizing net with
  | nil => simp [settleTokens]
  | cons token tokens ih =>
    have hcons : settleTokens user (token :: tokens) net =
        settleTokens user tokens
          (if (net user token).val ≠ 0 then write net user token .zero else net) := rfl
    -- the entry is zero whether or not the loop had to write it
    have hentry : (if (net user token).val ≠ 0 then write net user token .zero else net) u t =
        if u = user ∧ t = token then .zero else net u t := by
      by_cases hzero : (net user token).val = 0
      · rw [if_neg (not_not.mpr hzero)]
        split
        · rename_i hut
          rw [hut.1, hut.2]
          exact ext hzero
        · rfl
      · rw [if_pos hzero, write_apply]
    rw [hcons, ih, hentry]
    by_cases hu : u = user <;> by_cases ht : t = token <;> simp [hu, ht]

theorem Settlement.settleUsers_spec (users : List Address) (s : Settlement) :
    (settleUsers users s).setup = s.setup ∧
      (settleUsers users s).depositedCollateral = s.depositedCollateral ∧
      (settleUsers users s).virtualBalances = s.virtualBalances ∧
      ∀ u t, (settleUsers users s).epochNetDelta u t =
        if u ∈ users ∧ t ∈ s.supportedTokens then .zero else s.epochNetDelta u t := by
  induction users generalizing s with
  | nil => exact ⟨rfl, rfl, rfl, fun u t => by simp [settleUsers]⟩
  | cons user _ ih =>
    obtain ⟨hsetup, hcoll, hvirt, hnet⟩ := ih
      { s with
        epochNetDelta := settleTokens user s.supportedTokens s.epochNetDelta
        isEpochDirty := update s.isEpochDirty user false }
    refine ⟨hsetup, hcoll, hvirt, ?_⟩
    intro u t
    refine (hnet u t).trans ?_
    dsimp only
    rw [settleTokens_apply]
    by_cases hu : u = user <;> by_cases ht : t ∈ s.supportedTokens <;> simp [hu, ht]

theorem Settlement.settleEpoch_ok {block : Nat} (h : s.settleEpoch block = .ok s') :
    s'.setup = s.setup ∧ s'.depositedCollateral = s.depositedCollateral ∧
      s'.virtualBalances = s.virtualBalances ∧
      ∀ u t, s'.epochNetDelta u t = if u ∈ s.epochDirtyUsers ∧ t ∈ s.supportedTokens then .zero
        else s.epochNetDelta u t := by
  have h := of_require h
  have h := of_require h
  have h := of_require h
  cases h
  obtain ⟨hsetup, hcoll, hvirt, hnet⟩ := settleUsers_spec s.epochDirtyUsers s
  exact ⟨hsetup, hcoll, hvirt, hnet⟩

theorem Settlement.chargeFee_ok {fee : Uint 256} (h : s.chargeFee sender token fee = .ok s')
    (hfee : fee.val < 2 ^ 255) :
    s'.setup = s.setup ∧ s'.depositedCollateral = s.depositedCollateral ∧
      (s'.epochNetDelta = s.epochNetDelta ∧ s'.dirty = s.dirty) ∧
      ∀ u t, (s'.virtualBalances u t).val = (s.virtualBalances u t).val +
        (if u = sender ∧ t = token then -(fee.val : Int) else 0) +
        (if u = s.treasury ∧ t = token then (fee.val : Int) else 0) := by
  unfold chargeFee at h
  split at h
  · obtain ⟨_, hdebited, h⟩ := orRevert_bind_ok.mp h
    obtain ⟨_, hcredited, h⟩ := orRevert_bind_ok.mp h
    cases h
    refine ⟨rfl, rfl, ⟨rfl, rfl⟩, ?_⟩
    intro u t
    have hdebit := sub?_eq_some.mp hdebited
    have hcredit := add?_eq_some.mp hcredited
    rw [int256_val hfee] at hdebit hcredit
    rw [write_shift val _ hcredit,
      write_shift val s.virtualBalances (d := -(fee.val : Int)) (by rw [hdebit]; ring)]
  · rename_i hzero
    cases h
    refine ⟨rfl, rfl, ⟨rfl, rfl⟩, ?_⟩
    intro _ _
    have hval : fee.val = 0 := by omega
    simp [hval]

theorem Settlement.fastSettle_ok (h : s.fastSettle sender token = .ok s') :
    (s.isTokenSupported token ∧ (s.epochNetDelta sender token).val ≠ 0) ∧
      s'.setup = s.setup ∧ s'.depositedCollateral = s.depositedCollateral ∧
      (s'.epochNetDelta = write s.epochNetDelta sender token .zero ∧ s'.dirty = s.dirty) ∧
      ∀ u t, (s'.virtualBalances u t).val = (s.virtualBalances u t).val +
        (if u = sender ∧ t = token then -(|(s.epochNetDelta sender token).val| / 10000) else 0) +
        (if u = s.treasury ∧ t = token then
          |(s.epochNetDelta sender token).val| / 10000 else 0) := by
  have h := of_require h
  obtain ⟨hsupp, h⟩ := require_bind_ok.mp h
  obtain ⟨hnet, h⟩ := require_bind_ok.mp h
  obtain ⟨absNet, habs, h⟩ := bind_ok.mp h
  obtain ⟨scaled, hscaled, h⟩ := orRevert_bind_ok.mp h
  have hscale : scaled.val = absNet.val := by
    rw [Uint.mul?_eq_some.mp hscaled]
    exact Nat.mul_one _
  have hsmall : scaled.val / bpsDenominator < 2 ^ 255 := by
    have hlt := scaled.lt_two_pow
    rw [bpsDenominator]
    omega
  have hfee : (.truncate (scaled.val / bpsDenominator) : Uint 256).val =
      scaled.val / bpsDenominator := by
    refine Uint.truncate_of_lt (hsmall.trans ?_)
    norm_num
  have hvalue : ((scaled.val / bpsDenominator : Nat) : Int) =
      |(s.epochNetDelta sender token).val| / 10000 := by
    rw [hscale, ← magnitude_ok habs, bpsDenominator]
    rfl
  obtain ⟨hsetup, hcoll, hdelta, hvirt⟩ := chargeFee_ok h (by rw [hfee]; exact hsmall)
  refine ⟨⟨hsupp, hnet⟩, hsetup, hcoll, hdelta, ?_⟩
  intro u t
  rw [hvirt u t, hfee, hvalue]

theorem Vault.safeTransfer_ok {tokens tokens' : Address → Ledger} {src dst : Address}
    (h : safeTransfer declines tokens token src dst amount = .ok tokens') :
    amount.val ≤ tokens token src ∧
      tokens' = update tokens token ((tokens token).transfer src dst amount.val) := by
  have h := of_require h
  obtain ⟨hcov, h⟩ := require_bind_ok.mp h
  cases h
  exact ⟨hcov, rfl⟩

theorem Vault.deposit_ok (h : v.deposit declines sender token amount = .ok v') :
    v.settlement.isTokenSupported token ∧ amount.val ≤ v.tokens token sender ∧
      v'.tokens = update v.tokens token
        ((v.tokens token).transfer sender v.settlement.self amount.val) ∧
      v'.settlement.setup = v.settlement.setup ∧
      (v'.settlement.epochNetDelta = v.settlement.epochNetDelta ∧
        v'.settlement.dirty = v.settlement.dirty) ∧
      (∀ u t, ((v'.settlement.depositedCollateral u t).val : Int) =
        (v.settlement.depositedCollateral u t).val +
          if u = sender ∧ t = token then (amount.val : Int) else 0) ∧
      ∀ u t, (v'.settlement.virtualBalances u t).val = (v.settlement.virtualBalances u t).val +
        if u = sender ∧ t = token then (int256 amount).val else 0 := by
  have h := of_require h
  obtain ⟨hsupp, h⟩ := require_bind_ok.mp h
  obtain ⟨_, htokens, h⟩ := bind_ok.mp h
  obtain ⟨_, hcoll, h⟩ := orRevert_bind_ok.mp h
  obtain ⟨_, hbal, h⟩ := orRevert_bind_ok.mp h
  cases h
  obtain ⟨hcov, rfl⟩ := safeTransfer_ok htokens
  refine ⟨hsupp, hcov, rfl, rfl, ⟨rfl, rfl⟩, ?_, ?_⟩
  · have hadd := Uint.add?_eq_some.mp hcoll
    exact write_shift (fun n : Uint 256 => (n.val : Int)) v.settlement.depositedCollateral
      (by omega)
  · exact write_shift val v.settlement.virtualBalances (add?_eq_some.mp hbal)

theorem Vault.withdraw_ok (h : v.withdraw declines sender token amount = .ok v') :
    v.settlement.isTokenSupported token ∧
      amount.val ≤ (v.settlement.getWithdrawable sender token).val ∧
      amount.val ≤ v.tokens token v.settlement.self ∧ v'.tokens = update v.tokens token
        ((v.tokens token).transfer v.settlement.self sender amount.val) ∧
      v'.settlement.setup = v.settlement.setup ∧
      (v'.settlement.epochNetDelta = v.settlement.epochNetDelta ∧
        v'.settlement.dirty = v.settlement.dirty) ∧
      (∀ u t, ((v'.settlement.depositedCollateral u t).val : Int) =
        (v.settlement.depositedCollateral u t).val +
          if u = sender ∧ t = token then -(amount.val : Int) else 0) ∧
      ∀ u t, (v'.settlement.virtualBalances u t).val = (v.settlement.virtualBalances u t).val +
        if u = sender ∧ t = token then -(int256 amount).val else 0 := by
  have h := of_require h
  obtain ⟨hsupp, h⟩ := require_bind_ok.mp h
  obtain ⟨havail, h⟩ := require_bind_ok.mp h
  obtain ⟨_, hcoll, h⟩ := orRevert_bind_ok.mp h
  obtain ⟨_, hbal, h⟩ := orRevert_bind_ok.mp h
  obtain ⟨_, htokens, h⟩ := bind_ok.mp h
  obtain ⟨_, -, h⟩ := orRevert_bind_ok.mp h
  cases h
  obtain ⟨hcov, rfl⟩ := safeTransfer_ok htokens
  refine ⟨hsupp, not_lt.mp havail, hcov, rfl, rfl, ⟨rfl, rfl⟩, ?_, ?_⟩
  · have hsub := Uint.sub?_eq_some.mp hcoll
    exact write_shift (fun n : Uint 256 => (n.val : Int)) v.settlement.depositedCollateral
      (by omega)
  · have hsub := sub?_eq_some.mp hbal
    exact write_shift val v.settlement.virtualBalances (by rw [hsub]; ring)

end HyperPax.PaxSpot
