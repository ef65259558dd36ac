/-
  PaxSpot/Router.lean --- `PaxSpotRouter.sol` over the two engines.

  The router is the only way to the matching engine: it checks the cooldown and, for a funded
  wallet, the allowance, places the order and moves a counter of its own by the
  size submitted.  The counter is what the next allowance check reads;
  nothing tells the router about fills or cancellations.

  The allowance provider is a contract of another system; a call carries what the
  contract at each address would answer.
-/
import HyperPax.PaxSpot.Exposure

set_option autoImplicit false

namespace HyperPax.PaxSpot

open Lib Function

/-- `IAllowanceProvider`: its answers, or a revert. -/
structure Provider where
  isActive : Address → Option Bool
  getMaxPosition : Address → MarketId → Option (Uint 256)

/-- The storage of the router, without `avgEntryPrices`, which no function writes. -/
structure Router where
  self : Address
  owner : Address
  paused : Bool
  allowanceProvider : Address
  lastOrderBlock : Address → Nat
  orderCooldownBlocks : Uint 256
  isFundedWallet : Address → Bool
  positions : Address → MarketId → Sint 256
  volumePerBlock : Address → Nat → Uint 256

/-- The router and the engines behind it. -/
structure Gateway extends Router where
  exchange : Exchange

namespace Gateway

/-- A position after an order of some size: `+=` for a buy, `-=` for a sell. -/
def moved (position : Sint 256) (side : Side) (size : Uint 128) : Option (Sint 256) :=
  match side with
  | .buy => position.add? (int256 size)
  | .sell => position.sub? (int256 size)

/-- `_checkFundedWalletAllowance`. -/
def checkFundedWalletAllowance (g : Gateway) (providers : Address → Provider) (wallet : Address)
    (marketId : MarketId) (side : Side) (size : Uint 128) : Except Revert Unit :=
  if g.allowanceProvider = .zero then .ok ()
  else do
    let provider := providers g.allowanceProvider
    let active ← orRevert (provider.isActive wallet) (.callReverted g.allowanceProvider)
    require active (.fundedWalletNotActive wallet)
    let maxSize ← orRevert (provider.getMaxPosition wallet marketId)
      (.callReverted g.allowanceProvider)
    let newPos ← checked (moved (g.positions wallet marketId) side size)
    let absNewPos ← magnitude newPos
    require (¬ absNewPos.val > maxSize.val)
      (.fundedWalletExceedsAllowance wallet marketId absNewPos maxSize)

/-- The cooldown of `submitOrder`. -/
def checkCooldown (ctx : Ctx) (g : Gateway) : Except Revert Unit :=
  if g.orderCooldownBlocks.val > 0 then do
    let earliest ← checked
      (Uint.check (w := 256) (g.lastOrderBlock ctx.sender + g.orderCooldownBlocks.val))
    require (¬ ctx.block < earliest.val) (.cooldownActive ctx.sender (earliest.val - ctx.block))
  else .ok ()

/-- The allowance of `submitOrder`, for funded wallets only. -/
def checkWallet (g : Gateway) (providers : Address → Provider) (wallet : Address)
    (marketId : MarketId) (side : Side) (size : Uint 128) : Except Revert Unit :=
  if g.isFundedWallet wallet then
    g.checkFundedWalletAllowance providers wallet marketId side size
  else .ok ()

/-- The context in which the router calls the matching engine. -/
def callEngine (ctx : Ctx) (g : Gateway) : Ctx := { ctx with sender := g.self }

/-- The storage of the router after an order was accepted. -/
def accepted (ctx : Ctx) (g : Gateway) (marketId : MarketId) (position : Sint 256)
    (volume : Uint 256) (exchange : Exchange) : Gateway :=
  { g with
    lastOrderBlock := update g.lastOrderBlock ctx.sender ctx.block
    positions := write g.positions ctx.sender marketId position
    volumePerBlock := write g.volumePerBlock ctx.sender ctx.block volume
    exchange := exchange }

/-- `submitOrder`: the position counts an order as it is submitted. -/
def submitOrder (ctx : Ctx) (providers : Address → Provider) (g : Gateway) (marketId : MarketId)
    (side : Side) (orderType : OrderType) (offsetBps : Sint 16) (size : Uint 128) :
    Except Revert Gateway := do
  require (g.paused = false) .enforcedPause
  require (size.val ≠ 0) .invalidSize
  checkCooldown ctx g
  g.checkWallet providers ctx.sender marketId side size
  let exchange ← g.exchange.placeOrder (callEngine ctx g) ctx.sender marketId side orderType
    offsetBps size
  -- `_updatePosition` and `_recordVolume`
  let position ← checked (moved (g.positions ctx.sender marketId) side size)
  let volume ← checked ((g.volumePerBlock ctx.sender ctx.block).add? (.truncate size.val))
  return accepted ctx g marketId position volume exchange

/-- `cancelOrder`: positions stay as they are. -/
def cancelOrder (ctx : Ctx) (g : Gateway) (orderId : Nat) : Except Revert Gateway := do
  require (g.paused = false) .enforcedPause
  let exchange ← g.exchange.cancelOrder (callEngine ctx g) orderId ctx.sender
  return { g with exchange := exchange }

/-- `registerFundedWallet`, by the owner. -/
def registerFundedWallet (g : Gateway) (sender wallet : Address) : Except Revert Gateway := do
  require (sender = g.owner) (.ownableUnauthorizedAccount sender)
  require (wallet ≠ .zero) .invalidAddress
  return { g with isFundedWallet := update g.isFundedWallet wallet true }

def removeFundedWallet (g : Gateway) (sender wallet : Address) : Except Revert Gateway := do
  require (sender = g.owner) (.ownableUnauthorizedAccount sender)
  return { g with isFundedWallet := update g.isFundedWallet wallet false }

def setAllowanceProvider (g : Gateway) (sender provider : Address) : Except Revert Gateway := do
  require (sender = g.owner) (.ownableUnauthorizedAccount sender)
  return { g with allowanceProvider := provider }

def setCooldown (g : Gateway) (sender : Address) (cooldownBlocks : Uint 256) :
    Except Revert Gateway := do
  require (sender = g.owner) (.ownableUnauthorizedAccount sender)
  return { g with orderCooldownBlocks := cooldownBlocks }

def pause (g : Gateway) (sender : Address) : Except Revert Gateway := do
  require (sender = g.owner) (.ownableUnauthorizedAccount sender)
  require (g.paused = false) .enforcedPause
  return { g with paused := true }

def unpause (g : Gateway) (sender : Address) : Except Revert Gateway := do
  require (sender = g.owner) (.ownableUnauthorizedAccount sender)
  require g.paused .expectedPause
  return { g with paused := false }

/-- The constructor, over an engine. -/
def start (self owner : Address) (orderCooldownBlocks : Uint 256) (exchange : Exchange) :
    Gateway where
  self := self
  owner := owner
  paused := false
  allowanceProvider := .zero
  lastOrderBlock := fun _ => 0
  orderCooldownBlocks := orderCooldownBlocks
  isFundedWallet := fun _ => false
  positions := fun _ _ => .zero
  volumePerBlock := fun _ _ => .zero
  exchange := exchange

end Gateway

/-! ## Runs -/

/-- The external calls of the router, and those of the engines behind it. -/
inductive GatewayLabel where
  | submitOrder (ctx : Ctx) (providers : Address → Provider) (marketId : MarketId) (side : Side)
      (orderType : OrderType) (offsetBps : Sint 16) (size : Uint 128)
  | cancelOrder (ctx : Ctx) (orderId : Nat)
  | registerFundedWallet (sender wallet : Address)
  | removeFundedWallet (sender wallet : Address)
  | setAllowanceProvider (sender provider : Address)
  | setCooldown (sender : Address) (cooldownBlocks : Uint 256)
  | pause (sender : Address)
  | unpause (sender : Address)
  /-- a call of the matching engine itself, or of the settlement engine -/
  | engine (l : Label)

namespace Gateway

/-- The engine takes orders and cancellations from its router only, and the router makes them
in `submitOrder` and `cancelOrder`. -/
def engineStep (g : Gateway) : Label → Option Gateway
  | .placeOrder .. | .cancelOrder .. => none
  | l => (g.exchange.step l).map fun exchange => { g with exchange := exchange }

/-- One external call; a revert is no step. -/
def step (g : Gateway) : GatewayLabel → Option Gateway
  | .submitOrder ctx providers marketId side orderType offsetBps size =>
    (g.submitOrder ctx providers marketId side orderType offsetBps size).toOption
  | .cancelOrder ctx orderId => (g.cancelOrder ctx orderId).toOption
  | .registerFundedWallet sender wallet => (g.registerFundedWallet sender wallet).toOption
  | .removeFundedWallet sender wallet => (g.removeFundedWallet sender wallet).toOption
  | .setAllowanceProvider sender provider => (g.setAllowanceProvider sender provider).toOption
  | .setCooldown sender cooldownBlocks => (g.setCooldown sender cooldownBlocks).toOption
  | .pause sender => (g.pause sender).toOption
  | .unpause sender => (g.unpause sender).toOption
  | .engine l => g.engineStep l

variable {g g' : Gateway} {ctx : Ctx} {providers : Address → Provider} {marketId : MarketId}
  {side : Side} {orderType : OrderType} {offsetBps : Sint 16} {size : Uint 128}

theorem moved_val {position position' : Sint 256} (h : moved position side size = some position') :
    position'.val = position.val + side.sign * size.val := by
  have hsize : (int256 size).val = size.val :=
    int256_val (size.lt_two_pow.trans (by norm_num))
  cases side with
  | buy => rw [Sint.add?_eq_some.mp h, hsize, Side.sign, one_mul]
  | sell =>
    rw [Sint.sub?_eq_some.mp h, hsize, Side.sign]
    ring

theorem checkFundedWalletAllowance_ok {wallet : Address} {M : Uint 256} {u : Unit}
    (h : g.checkFundedWalletAllowance providers wallet marketId side size = .ok u)
    (hprovider : g.allowanceProvider ≠ .zero)
    (hmax : (providers g.allowanceProvider).getMaxPosition wallet marketId = some M) :
    |(g.positions wallet marketId).val + side.sign * size.val| ≤ M.val := by
  rw [checkFundedWalletAllowance, if_neg hprovider] at h
  obtain ⟨_, -, h⟩ := orRevert_bind_ok.mp h
  have h := of_require h
  obtain ⟨maxSize, hmaxSize, h⟩ := orRevert_bind_ok.mp h
  obtain ⟨_, hnewPos, h⟩ := orRevert_bind_ok.mp h
  obtain ⟨_, habs, h⟩ := bind_ok.mp h
  have hle := require_ok.mp h
  obtain rfl : maxSize = M := Option.some.inj (hmaxSize.symm.trans hmax)
  rw [← moved_val hnewPos, ← magnitude_ok habs]
  exact_mod_cast not_lt.mp hle

theorem submitOrder_ok
    (h : g.submitOrder ctx providers marketId side orderType offsetBps size = .ok g') :
    (g.isFundedWallet ctx.sender →
      g.checkFundedWalletAllowance providers ctx.sender marketId side size = .ok ()) ∧
    ∃ exchange position volume,
      g.exchange.step (.placeOrder (callEngine ctx g) ctx.sender marketId side orderType offsetBps
        size) = some exchange ∧ moved (g.positions ctx.sender marketId) side size = some position ∧
      g' = accepted ctx g marketId position volume exchange := by
  have h := of_require h
  have h := of_require h
  obtain ⟨_, -, h⟩ := bind_ok.mp h
  obtain ⟨_, hcheck, h⟩ := bind_ok.mp h
  obtain ⟨exchange, hexchange, h⟩ := bind_ok.mp h
  obtain ⟨position, hposition, h⟩ := orRevert_bind_ok.mp h
  obtain ⟨volume, -, h⟩ := orRevert_bind_ok.mp h
  cases h
  refine ⟨fun hfunded => ?_, exchange, position, volume, toOption_eq_some.mpr hexchange, hposition,
    rfl⟩
  rwa [checkWallet, if_pos hfunded] at hcheck

theorem step_cases {l : GatewayLabel} (h : g.step l = some g') :
    (∃ ctx providers marketId side orderType offsetBps size,
      l = .submitOrder ctx providers marketId side orderType offsetBps size ∧
      g.submitOrder ctx providers marketId side orderType offsetBps size = .ok g') ∨
    (g'.positions = g.positions ∧ (g'.exchange = g.exchange ∨
      ∃ l', g.exchange.step l' = some g'.exchange ∧ ∀ trader m side, l'.placed trader m side = 0))
    := by
  cases l with
  | submitOrder ctx providers marketId side orderType offsetBps size =>
    exact .inl ⟨ctx, providers, marketId, side, orderType, offsetBps, size, rfl,
      toOption_eq_some.mp h⟩
  | cancelOrder ctx orderId =>
    have h := toOption_eq_some.mp h
    have h := of_require h
    obtain ⟨exchange, hexchange, h⟩ := bind_ok.mp h
    cases h
    exact .inr ⟨rfl, .inr ⟨.cancelOrder (callEngine ctx g) orderId ctx.sender,
      toOption_eq_some.mpr hexchange, fun _ _ _ => rfl⟩⟩
  | engine l =>
    right
    cases l with
    | placeOrder | cancelOrder => cases h
    | clearBatch | createMarket | setMarketMode | setRouter | pause | unpause | custody =>
      obtain ⟨_, hexchange, rfl⟩ := Option.map_eq_some_iff.mp h
      exact ⟨rfl, .inr ⟨_, hexchange, fun _ _ _ => rfl⟩⟩
  | registerFundedWallet sender wallet | pause sender | unpause sender =>
    have h := toOption_eq_some.mp h
    have h := of_require h
    have h := of_require h
    cases h
    exact .inr ⟨rfl, .inl rfl⟩
  | removeFundedWallet sender wallet | setAllowanceProvider sender provider
  | setCooldown =>
    have h := toOption_eq_some.mp h
    have h := of_require h
    cases h
    exact .inr ⟨rfl, .inl rfl⟩

end Gateway

end HyperPax.PaxSpot
