/-
  Erc20/Keeper.lean --- the registry of token pairs and the conversions.

  Source: x/erc20/keeper/{token_pairs,proposals,mint,msg_server,evm}.go,
  x/erc20/proposal_handler.go and x/erc20/types/proposal.go.

  A function returns the new state or an error.  A message or a proposal that fails is rolled
  back, so what it did before the error is not kept.  Events, telemetry and logs are left out.
-/
import HyperPax.Erc20.Types
import HyperPax.Lib.Revert

set_option autoImplicit false

namespace HyperPax.Erc20

open Lib Function

variable (env : Env)

/-! ## The stores -/

/-- `GetID`: the hash of the contract and the denomination. -/
def TokenPair.getID (pair : TokenPair) : Key :=
  env.sum (env.addressString pair.erc20Address ++ ascii "|" ++ pair.denom)

/-- `CreateDenom`: the name of the coin that stands for a token. -/
def createDenom (address : Text) : Text := moduleName ++ ascii "/" ++ address

namespace Registry

/-- `SetTokenPair`. -/
def setTokenPair (r : Registry) (pair : TokenPair) : Registry :=
  { r with pairs := r.pairs.insert (pair.getID env) pair }

/-- `SetDenomMap`. -/
def setDenomMap (r : Registry) (denom : Text) (id : Key) : Registry :=
  { r with byDenom := r.byDenom.insert denom id }

/-- `SetERC20Map`. -/
def setERC20Map (r : Registry) (erc20 : Address) (id : Key) : Registry :=
  { r with byERC20 := r.byERC20.insert erc20.bytes id }

/-- The three writes of a registration. -/
def register (r : Registry) (pair : TokenPair) : Registry :=
  ((r.setTokenPair env pair).setDenomMap pair.denom (pair.getID env)).setERC20Map
    pair.erc20Address (pair.getID env)

/-- `DeleteTokenPair`. -/
def deleteTokenPair (r : Registry) (pair : TokenPair) : Registry where
  pairs := r.pairs.erase (pair.getID env)
  byERC20 := r.byERC20.erase pair.erc20Address.bytes
  byDenom := r.byDenom.erase pair.denom

/-- `IsDenomRegistered`. -/
def isDenomRegistered (r : Registry) (denom : Text) : Bool := (r.byDenom[denom]?).isSome

/-- `IsERC20Registered`. -/
def isERC20Registered (r : Registry) (erc20 : Address) : Bool := (r.byERC20[erc20.bytes]?).isSome

/-- `GetTokenPairID`: of a contract if the text is that of an address, of a coin otherwise. -/
def getTokenPairID (r : Registry) (token : Text) : Option Key :=
  match hexToAddress? token with
  | some erc20 => r.byERC20[erc20.bytes]?
  | none => r.byDenom[token]?

end Registry

/-! ## Coins -/

namespace Bank

/-- Move coins. -/
def move (b : Bank) (src dst : Address) (denom : Text) (n : Nat) : Bank :=
  { b with balances := fun a d =>
      if d = denom then Ledger.transfer (fun a => b.balances a denom) src dst n a
      else b.balances a d }

/-- Create coins on an account. -/
def create (b : Bank) (dst : Address) (denom : Text) (n : Nat) : Bank :=
  { b with
    balances := fun a d => if a = dst ∧ d = denom then b.balances a d + n else b.balances a d
    supply := update b.supply denom (b.supply denom + n) }

/-- Destroy coins of an account. -/
def destroy (b : Bank) (src : Address) (denom : Text) (n : Nat) : Bank :=
  { b with
    balances := fun a d => if a = src ∧ d = denom then b.balances a d - n else b.balances a d
    supply := update b.supply denom (b.supply denom - n) }

/-- `SetDenomMetaData`. -/
def setDenomMetaData (b : Bank) (metadata : Metadata) : Bank :=
  { b with metadata := update b.metadata metadata.base (some metadata) }

end Bank

/-- `SendCoins`. -/
def sendCoins (s : State) (src dst : Address) (denom : Text) (n : Nat) (e : Err) :
    Except Err State := do
  require (env.refuses s.bank src dst denom n = false ∧ n ≤ s.bank.balances src denom) e
  .ok { s with bank := s.bank.move src dst denom n }

/-- `SendCoinsFromAccountToModule`, to the account of this module. -/
def sendToModule (s : State) (src : Address) (denom : Text) (n : Nat) : Except Err State :=
  sendCoins env s src env.moduleAddress denom n (.escrowFailed denom n)

/-- `SendCoinsFromModuleToAccount`, from the account of this module. -/
def sendFromModule (s : State) (dst : Address) (denom : Text) (n : Nat) : Except Err State := do
  require (env.blockedAddr dst = false) (.receiverBlocked dst)
  sendCoins env s env.moduleAddress dst denom n (.bankRefused denom n)

/-- `MintCoins`, by this module. -/
def mintCoins (s : State) (denom : Text) (n : Nat) : Except Err State := do
  require (env.refuses s.bank env.moduleAddress env.moduleAddress denom n = false)
    (.bankRefused denom n)
  .ok { s with bank := s.bank.create env.moduleAddress denom n }

/-- `BurnCoins`, by this module. -/
def burnCoins (s : State) (denom : Text) (n : Nat) : Except Err State := do
  require (n ≤ s.bank.balances env.moduleAddress denom) (.burnFailed denom n)
  .ok { s with bank := s.bank.destroy env.moduleAddress denom n }

/-! ## Token contracts -/

namespace Token

/-- `_mint`: reverts if the total supply would not be a word. -/
def mint (t : Token) (dst : Address) (n : Nat) : Option Token :=
  if t.totalSupply + n < 2 ^ 256 then
    some ⟨update t.balances dst (t.balances dst + n), t.totalSupply + n⟩
  else none

/-- `_burn`; no account of a standard token holds more than the total supply. -/
def burn (t : Token) (src : Address) (n : Nat) : Option Token :=
  if n ≤ t.balances src ∧ n ≤ t.totalSupply then
    some ⟨update t.balances src (t.balances src - n), t.totalSupply - n⟩
  else none

/-- `_transfer`. -/
def transfer (t : Token) (src dst : Address) (n : Nat) : Option Token :=
  if n ≤ t.balances src then some { t with balances := t.balances.transfer src dst n } else none

end Token

/-- `CallEVM`, committed: the contract takes the step or reverts.  An address without code answers
every call and does nothing. -/
def callToken (s : State) (call : Call) (act : Token → Option Token) : Except Err State := do
  let failed : Err := .callFailed call.method call.contract
  require (env.callFails s call = false) failed
  match s.tokens call.contract with
  | none => .ok s
  | some t =>
    let t' ← orRevert (act t) failed
    .ok { s with tokens := update s.tokens call.contract (some t') }

/-- `BalanceOf`; nothing can be unpacked from the answer of an address without code. -/
def balanceOf (s : State) (contract account : Address) : Except Err Nat := do
  require (env.callFails s (.balanceOf contract account) = false) .balanceUnknown
  let t ← orRevert (s.tokens contract) .balanceUnknown
  .ok (t.balances account)

/-- `CallEVM(…, "mint", …)` by the module. -/
def mintTokens (s : State) (contract dst : Address) (n : Nat) : Except Err State :=
  callToken env s (.mint contract dst n) fun t => t.mint dst n

/-- `CallEVM(…, "burnCoins", …)` by the module. -/
def burnTokensOf (s : State) (contract src : Address) (n : Nat) : Except Err State :=
  callToken env s (.burnCoins contract src n) fun t => t.burn src n

/-- `CallEVM(…, "burn", …)` by the module: of its own tokens. -/
def burnTokens (s : State) (contract : Address) (n : Nat) : Except Err State :=
  callToken env s (.burn contract n) fun t => t.burn env.moduleAddress n

/-- `transfer`, and the check of the answer. -/
def transferTokens (s : State) (caller contract dst : Address) (n : Nat) : Except Err State := do
  require (s.tokens contract).isSome (.callFailed "transfer" contract)
  callToken env s (.transfer caller contract dst n) fun t => t.transfer caller dst n

/-- `monitorApprovalEvent`. -/
def monitorApprovalEvent (s : State) (call : Call) : Except Err Unit :=
  require (env.approvalEvent s call = false) .unexpectedApproval

/-- `QueryERC20`. -/
def queryERC20 (s : State) (contract : Address) : Except Err ERC20Data := do
  require (s.tokens contract).isSome (.queryFailed contract)
  orRevert (env.query s contract) (.queryFailed contract)

/-! ## Registration -/

/-- `verifyMetadata`. -/
def verifyMetadata (s : State) (metadata : Metadata) : Except Err State :=
  match s.bank.metadata metadata.base with
  | none => .ok { s with bank := s.bank.setDenomMetaData metadata }
  | some stored => do
    require (equalMetadata stored metadata) (.metadataInvalid metadata.name)
    .ok s

/-- `DeployERC20Contract`: a contract without holders at a new address. -/
def deployERC20Contract (s : State) (metadata : Metadata) : Except Err (State × Address) := do
  let contract ← orRevert (env.deploy s metadata) (.deployFailed metadata.name)
  .ok ({ s with tokens := update s.tokens contract (some ⟨fun _ => 0, 0⟩) }, contract)

/-- `RegisterCoin`. -/
def registerCoin (s : State) (coinMetadata : Metadata) : Except Err State := do
  require (s.registry.isDenomRegistered coinMetadata.name = false)
    (.coinRegistered coinMetadata.name)
  require (s.bank.supply coinMetadata.base ≠ 0) (.noSupply coinMetadata.base)
  let s₁ ← verifyMetadata s coinMetadata
  let deployed ← deployERC20Contract env s₁ coinMetadata
  let pair := newTokenPair deployed.2 coinMetadata.base .ownerModule
  .ok { deployed.1 with registry := deployed.1.registry.register env pair }

/-- The metadata of the coin that stands for a token. -/
def coinMetadataOf (contract : Address) (data : ERC20Data) : Metadata :=
  let strContract := env.addressString contract
  let base := createDenom strContract
  let metadata : Metadata := {
    description := ascii "Cosmos coin token representation of " ++ strContract
    denomUnits := [⟨base, 0, []⟩]
    base := base
    display := base
    name := base
    symbol := data.symbol }
  if 0 < data.decimals then
    let nameSanitized := sanitizeERC20Name data.name
    { metadata with
      denomUnits := metadata.denomUnits ++ [⟨nameSanitized, data.decimals.toUInt32, []⟩]
      display := nameSanitized }
  else metadata

/-- `CreateCoinMetadata`. -/
def createCoinMetadata (s : State) (contract : Address) : Except Err (State × Metadata) := do
  let data ← queryERC20 env s contract
  let denom := createDenom (env.addressString contract)
  require (s.bank.metadata denom).isNone .metadataRegistered
  require (s.registry.isDenomRegistered denom = false) (.denomRegistered data.name)
  let metadata := coinMetadataOf env contract data
  require (env.metadataValid metadata) (.tokenDataInvalid contract)
  .ok ({ s with bank := s.bank.setDenomMetaData metadata }, metadata)

/-- `RegisterERC20`. -/
def registerERC20 (s : State) (contract : Address) : Except Err State := do
  require (s.registry.isERC20Registered contract = false) (.contractRegistered contract)
  let created ← createCoinMetadata env s contract
  let pair := newTokenPair contract created.2.name .ownerExternal
  .ok { created.1 with registry := created.1.registry.register env pair }

/-- `GetTokenPair` of the pair that `GetTokenPairID` finds. -/
def pairOf (s : State) (token : Text) : Except Err TokenPair := do
  let id ← orRevert (s.registry.getTokenPairID token) (.pairNotFoundByID token)
  orRevert s.registry.pairs[id]? (.pairNotFound token)

/-- `ToggleConversion`. -/
def toggleConversion (s : State) (token : Text) : Except Err State := do
  let pair ← pairOf s token
  .ok { s with registry := s.registry.setTokenPair env { pair with enabled := !pair.enabled } }

/-! ## Proposals -/

/-- `validateIBCVoucherMetadata`: a denomination with a slash is that of a voucher. -/
def validateIBCVoucherMetadata (metadata : Metadata) : Except Err Unit :=
  let first := metadata.base.takeWhile fun b => b ≠ 47
  if first = metadata.base ∧ isBlank metadata.base = false then .ok ()
  else require (first ≠ metadata.base ∧ first = ascii "ibc") (.notVoucher metadata.base)

/-- The checks of `RegisterCoinProposal.ValidateBasic` on one coin. -/
def validateCoin (metadata : Metadata) : Except Err Unit := do
  require (env.metadataValid metadata) .invalidMetadata
  require (containsText metadata.base (ascii "evm") = false) (.evmDenom metadata.base)
  require (env.validIBCDenom metadata.base) (.invalidIBCDenom metadata.base)
  validateIBCVoucherMetadata metadata

/-- The proposals of the module. -/
inductive Proposal where
  | registerCoin (metadata : List Metadata)
  | registerERC20 (contracts : List Address)
  | toggleTokenConversion (token : Text)

/-- `ValidateBasic`: the addresses and tokens of the other proposals are well formed here. -/
def Proposal.validateBasic : Proposal → Except Err Unit
  | .registerCoin metadata => metadata.forM (validateCoin env)
  | _ => .ok ()

/-- `NewErc20ProposalHandler`. -/
def handleProposal (s : State) (proposal : Proposal) : Except Err State := do
  require (s.params.enableErc20) (.erc20Disabled "registration")
  match proposal with
  | .registerCoin metadata => metadata.foldlM (registerCoin env) s
  | .registerERC20 contracts => contracts.foldlM (registerERC20 env) s
  | .toggleTokenConversion token => toggleConversion env s token

/-- A proposal that passes its basic validation is handled when it is accepted. -/
def executeProposal (s : State) (proposal : Proposal) : Except Err State := do
  proposal.validateBasic env
  handleProposal env s proposal

/-! ## Conversions -/

/-- `MintingEnabled`. -/
def mintingEnabled (s : State) (sender receiver : Address) (token : Text) :
    Except Err TokenPair := do
  require (s.params.enableErc20) (.erc20Disabled "module")
  let pair ← pairOf s token
  require pair.enabled (.pairDisabled token)
  require (env.blockedAddr receiver = false) (.receiverBlocked receiver)
  require (sender = receiver ∨ env.sendEnabled pair.denom) (.sendDisabled token)
  .ok pair

/-- `MsgConvertCoin`. -/
structure MsgConvertCoin where
  denom : Text
  amount : Nat
  receiver : Address
  sender : Address

/-- `MsgConvertERC20`. -/
structure MsgConvertERC20 where
  contractAddress : Text
  amount : Nat
  receiver : Address
  sender : Address

/-- The balance of an account must have grown to the expected one. -/
def expectTokens (s : State) (contract account : Address) (expected : Nat) : Except Err Unit := do
  let actual ← balanceOf env s contract account
  require (actual = expected) (.tokenBalance expected actual)

def expectCoins (s : State) (account : Address) (denom : Text) (expected : Nat) :
    Except Err Unit :=
  require (s.bank.balances account denom = expected)
    (.coinBalance expected (s.bank.balances account denom))

/-- `convertCoinNativeCoin`: escrow the coins, mint the tokens. -/
def convertCoinNativeCoin (s : State) (pair : TokenPair) (msg : MsgConvertCoin) :
    Except Err State := do
  let contract := pair.erc20Address
  let balanceToken ← balanceOf env s contract msg.receiver
  let s₁ ← sendToModule env s msg.sender msg.denom msg.amount
  let s₂ ← mintTokens env s₁ contract msg.receiver msg.amount
  expectTokens env s₂ contract msg.receiver (balanceToken + msg.amount)
  .ok s₂

/-- `convertERC20NativeCoin`: burn the tokens, pay out the coins. -/
def convertERC20NativeCoin (s : State) (pair : TokenPair) (msg : MsgConvertERC20) :
    Except Err State := do
  let contract := pair.erc20Address
  let balanceCoin := s.bank.balances msg.receiver pair.denom
  let balanceToken ← balanceOf env s contract msg.sender
  let s₁ ← burnTokensOf env s contract msg.sender msg.amount
  let s₂ ← sendFromModule env s₁ msg.receiver pair.denom msg.amount
  expectCoins s₂ msg.receiver pair.denom (balanceCoin + msg.amount)
  expectTokens env s₂ contract msg.sender (balanceToken - msg.amount)
  .ok s₂

/-- `convertERC20NativeToken`: escrow the tokens, mint the coins. -/
def convertERC20NativeToken (s : State) (pair : TokenPair) (msg : MsgConvertERC20) :
    Except Err State := do
  let contract := pair.erc20Address
  let balanceCoin := s.bank.balances msg.receiver pair.denom
  let balanceToken ← balanceOf env s contract env.moduleAddress
  let s₁ ← transferTokens env s msg.sender contract env.moduleAddress msg.amount
  expectTokens env s₁ contract env.moduleAddress (balanceToken + msg.amount)
  let s₂ ← mintCoins env s₁ pair.denom msg.amount
  let s₃ ← sendFromModule env s₂ msg.receiver pair.denom msg.amount
  expectCoins s₃ msg.receiver pair.denom (balanceCoin + msg.amount)
  monitorApprovalEvent env s (.transfer msg.sender contract env.moduleAddress msg.amount)
  .ok s₃

/-- `convertCoinNativeERC20`: escrow and burn the coins, pay out the tokens. -/
def convertCoinNativeERC20 (s : State) (pair : TokenPair) (msg : MsgConvertCoin) :
    Except Err State := do
  let contract := pair.erc20Address
  let balanceToken ← balanceOf env s contract msg.receiver
  let s₁ ← sendToModule env s msg.sender msg.denom msg.amount
  let s₂ ← transferTokens env s₁ env.moduleAddress contract msg.receiver msg.amount
  expectTokens env s₂ contract msg.receiver (balanceToken + msg.amount)
  let s₃ ← burnCoins env s₂ msg.denom msg.amount
  monitorApprovalEvent env s₁ (.transfer env.moduleAddress contract msg.receiver msg.amount)
  .ok s₃

/-- The pair of a contract that is gone is deleted. -/
def deletePair (s : State) (pair : TokenPair) : State :=
  { s with registry := s.registry.deleteTokenPair env pair }

/-- `ConvertCoin`. -/
def convertCoin (s : State) (msg : MsgConvertCoin) : Except Err State := do
  let pair ← mintingEnabled env s msg.sender msg.receiver msg.denom
  if (s.tokens pair.erc20Address).isNone then .ok (deletePair env s pair)
  else
    match pair.contractOwner with
    | .ownerModule => convertCoinNativeCoin env s pair msg
    | .ownerExternal => convertCoinNativeERC20 env s pair msg
    | .ownerUnspecified => .error .undefinedOwner

/-- `ConvertERC20`. -/
def convertERC20 (s : State) (msg : MsgConvertERC20) : Except Err State := do
  let pair ← mintingEnabled env s msg.sender msg.receiver msg.contractAddress
  if (s.tokens pair.erc20Address).isNone then .ok (deletePair env s pair)
  else
    match pair.contractOwner with
    | .ownerModule => convertERC20NativeCoin env s pair msg
    | .ownerExternal => convertERC20NativeToken env s pair msg
    | .ownerUnspecified => .error .undefinedOwner

end HyperPax.Erc20
