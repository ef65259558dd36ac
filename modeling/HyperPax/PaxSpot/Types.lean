/-
  PaxSpot/Types.lean --- the data of the PaxSpot contracts.

  `PaxSpotTypes.sol`, the queue entry of `IBatchClearing.sol` and the custom errors of the
  three contracts.  Order ids, block numbers and epochs are counters that only grow
  and are natural numbers; amounts, offsets and prices keep the widths of the source.

  A `Fill` is what one execution of `_executeFill` or `_settleBatchFill` did.  The
  contracts do not store fills; the list of them is a history variable of the model.
-/
import HyperPax.Base.Address
import HyperPax.Lib.Word
import HyperPax.Lib.Revert
import HyperPax.Lib.Mapping

set_option autoImplicit false

namespace HyperPax.PaxSpot

open Lib

/-- `Side`. -/
inductive Side where
  | buy
  | sell
deriving DecidableEq

/-- `OrderType`. -/
inductive OrderType where
  | market
  | limit
deriving DecidableEq

/-- `MarketMode`. -/
inductive MarketMode where
  | continuous
  | batch
deriving DecidableEq

/-- A `bytes32` market identifier. -/
abbrev MarketId : Type := BitVec 256

/-- `Order`. -/
structure Order where
  id : Nat
  trader : Address
  marketId : MarketId
  side : Side
  orderType : OrderType
  offsetBps : Sint 16
  size : Uint 128
  filledSize : Uint 128
  blockSubmitted : Nat
  active : Bool
deriving DecidableEq

/-- An unwritten entry of the `orders` mapping. -/
def Order.unwritten : Order where
  id := 0
  trader := .zero
  marketId := 0
  side := .buy
  orderType := .market
  offsetBps := .zero
  size := .zero
  filledSize := .zero
  blockSubmitted := 0
  active := false

/-- `MarketState`, without the rebate and the batch deadline, which no function reads. -/
structure MarketState where
  marketId : MarketId
  baseToken : Address
  quoteToken : Address
  mode : MarketMode
  active : Bool
  minOrderSize : Uint 128
  maxOffsetBps : Sint 16
  takerFeeBps : Uint 16
deriving DecidableEq

/-- An unwritten entry of the `marketStates` mapping. -/
def MarketState.unwritten : MarketState where
  marketId := 0
  baseToken := .zero
  quoteToken := .zero
  mode := .continuous
  active := false
  minOrderSize := .zero
  maxOffsetBps := .zero
  takerFeeBps := .zero

/-- `IBatchClearing.Order`: a queue entry, which carries neither the order's id nor its
trader. -/
structure Entry where
  offsetBps : Sint 16
  size : Uint 128
deriving DecidableEq

/-- One executed fill.  `quoteAmount` and `takerFee` are the amounts it settled. -/
structure Fill where
  marketId : MarketId
  baseToken : Address
  quoteToken : Address
  buyOrderId : Nat
  sellOrderId : Nat
  buyer : Address
  seller : Address
  size : Uint 128
  price : Sint 256
  oraclePrice : Sint 256
  quoteAmount : Sint 256
  takerFee : Uint 256
deriving DecidableEq

/-- Why a call reverted. -/
inductive Revert where
  | panic
  | outOfGas
  | callReverted (target : Address)
  | enforcedPause
  | expectedPause
  | ownableUnauthorizedAccount (account : Address)
  -- MatchingEngine
  | onlyRouter
  | marketNotActive (marketId : MarketId)
  | marketAlreadyExists (marketId : MarketId)
  | orderNotActive (orderId : Nat)
  | notOrderOwner (orderId : Nat)
  | orderSizeTooSmall (size minSize : Uint 128)
  | offsetExceedsMax (offset maxOffset : Sint 16)
  | invalidMarketParams
  | batchNotReady (marketId : MarketId)
  | oracleUnavailable (marketId : MarketId)
  | precompileFailed
  -- SettlementEngine
  | onlyMatchingEngine
  | tokenNotSupported (token : Address)
  | tokenAlreadySupported (token : Address)
  | invalidAddress
  | invalidEpochLength
  | epochNotReady
  | nothingToSettle
  | withdrawExceedsAvailable (user token : Address) (requested available : Uint 256)
  | transferFailed (token : Address)
  -- PaxSpotRouter
  | cooldownActive (trader : Address) (blocksRemaining : Nat)
  | fundedWalletNotActive (wallet : Address)
  | fundedWalletExceedsAllowance (wallet : Address) (marketId : MarketId)
      (newSize maxSize : Uint 256)
  | invalidSize
deriving DecidableEq

/-- The result of checked arithmetic, or `Panic(0x11)`. -/
abbrev checked {α : Type} (o : Option α) : Except Revert α := orRevert o .panic

/-- `int256(uint256(n))`. -/
def int256 {w : Nat} (n : Uint w) : Sint 256 := .wrap (n.val : Int)

theorem int256_val {w : Nat} {n : Uint w} (h : n.val < 2 ^ 255) : (int256 n).val = n.val := by
  refine Sint.wrap_of_fits (by decide) ⟨?_, ?_⟩
  · have hpos : (0 : Int) < 2 ^ (256 - 1) := by positivity
    omega
  · exact_mod_cast h

variable {n : Uint 256}

theorem int256_of_le (h : 2 ^ 255 ≤ n.val) : (int256 n).val = (n.val : Int) - 2 ^ 256 := by
  have hlt := n.lt_two_pow
  have hfits : Sint.Fits 256 ((n.val : Int) - 2 ^ 256) := by
    norm_num [Sint.Fits]
    omega
  have hpow : ((2 ^ 256 : Nat) : Int) = (2 : Int) ^ 256 := by norm_num
  have hwrap := Sint.wrap_sub (w := 256) (n.val : Int)
  rw [hpow] at hwrap
  rw [int256, ← hwrap, Sint.wrap_of_fits (by decide) hfits]

/-- `uint256(z >= 0 ? z : -z)`, with a checked negation. -/
def magnitude (z : Sint 256) : Except Revert (Uint 256) :=
  if 0 ≤ z.val then .ok (.truncate z.val.toNat)
  else do
    let n ← checked z.neg?
    return .truncate n.val.toNat

theorem toNat_lt (z : Sint 256) : z.val.toNat < 2 ^ 256 := by
  have h := z.lt_two_pow
  have hpow : (2 : Int) ^ (256 - 1) < (2 : Int) ^ 256 := by norm_num
  zify
  rw [Int.toNat_eq_max]
  have hpos : (0 : Int) < (2 : Int) ^ 256 := by positivity
  exact max_lt (h.trans hpow) hpos

theorem magnitude_ok {z : Sint 256} (h : magnitude z = .ok n) : (n.val : Int) = |z.val| := by
  unfold magnitude at h
  split at h
  · rename_i hz
    cases h
    rw [Uint.truncate_of_lt (toNat_lt z), Int.toNat_of_nonneg hz, abs_of_nonneg hz]
  rename_i hz
  obtain ⟨m, hm, hn⟩ := orRevert_bind_ok.mp h
  cases hn
  have hneg := Sint.neg?_eq_some.mp hm
  rw [Uint.truncate_of_lt (toNat_lt m), Int.toNat_of_nonneg (by omega), hneg, abs_of_neg (by omega)]

end HyperPax.PaxSpot
