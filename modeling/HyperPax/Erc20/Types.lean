/-
  Erc20/Types.lean --- token pairs, coins, token contracts and errors of x/erc20.

  Source: x/erc20/types/{token_pair,proposal,utils,params,errors,keys}.go.

  Go strings are byte strings here.  A token contract is a standard ERC-20: balances and a
  total supply.  The bank, the EVM, the hash functions and the IBC transfer application are
  other people's code: `Env` holds what the module asks of them.
-/
import HyperPax.Base.Bank
import HyperPax.Lib.Abi
import HyperPax.Lib.Hex
import HyperPax.Lib.KVStore

set_option autoImplicit false

namespace HyperPax.Erc20

open Lib

/-! ## Texts -/

/-- A Go string. -/
abbrev Text : Type := List UInt8

/-- The bytes of a text of plain characters. -/
def ascii (s : String) : Text := s.toList.map fun c => .ofNat c.toNat

/-- `strings.Contains`. -/
def containsText (text part : Text) : Bool := text.tails.any fun rest => part.isPrefixOf rest

/-- `strings.TrimSpace(text) == ""`. -/
def isBlank (text : Text) : Bool := text.all fun b => b ∈ [9, 10, 11, 12, 13, 32]

/-- `common.IsHexAddress` and `common.HexToAddress`: forty digits, with or without `0x`. -/
def hexToAddress? (text : Text) : Option Address :=
  let digits := Hex.strip text
  if digits.length = 40 then
    (digits.mapM Hex.fromHexChar).map fun ds => .ofNat (ds.foldl (fun n d => n * 16 + d) 0)
  else none

/-! ## Records -/

structure Params where
  enableErc20 : Bool
  enableEVMHook : Bool

/-- `types.Owner`. -/
inductive Owner where
  | ownerUnspecified
  | ownerModule
  | ownerExternal
deriving DecidableEq

/-- `types.TokenPair`.  The contract is kept as its checksummed hexadecimal text, which stands for
the address. -/
structure TokenPair where
  erc20Address : Address
  denom : Text
  enabled : Bool
  contractOwner : Owner
deriving DecidableEq

/-- `NewTokenPair`. -/
def newTokenPair (erc20Address : Address) (denom : Text) (contractOwner : Owner) : TokenPair :=
  ⟨erc20Address, denom, true, contractOwner⟩

/-- `banktypes.DenomUnit`. -/
structure DenomUnit where
  denom : Text
  exponent : UInt32
  aliases : List Text
deriving DecidableEq

/-- `banktypes.Metadata`: the fields that `EqualMetadata` compares. -/
structure Metadata where
  description : Text
  denomUnits : List DenomUnit
  base : Text
  display : Text
  name : Text
  symbol : Text
deriving DecidableEq

/-- `EqualMetadata`. -/
def equalMetadata (a b : Metadata) : Bool := a = b

structure ERC20Data where
  name : Text
  symbol : Text
  decimals : UInt8

/-- The name of the module, and of the coins that stand for tokens. -/
def moduleName : Text := ascii "erc20"

/-! ## Names of coins -/

def removeLeadingNumbersFrom : Bool → Text → Text
  | _, [] => []
  | lineStart, b :: rest =>
    if lineStart ∧ 48 ≤ b ∧ b ≤ 57 then removeLeadingNumbersFrom true rest
    else b :: removeLeadingNumbersFrom (b = 10) rest

/-- `removeLeadingNumbers`: the digits at the start of each line. -/
def removeLeadingNumbers (text : Text) : Text := removeLeadingNumbersFrom true text

def isLetter (b : UInt8) : Bool := (65 ≤ b ∧ b ≤ 90) ∨ (97 ≤ b ∧ b ≤ 122)

/-- `removeSpecialChars`: a first character that is no letter, and everything that is no letter,
digit, slash or hyphen. -/
def removeSpecialChars : Text → Text
  | [] => []
  | b :: rest =>
    (if isLetter b then [b] else []) ++
      rest.filter fun c => isLetter c ∨ (48 ≤ c ∧ c ≤ 57) ∨ c = 47 ∨ c = 45

/-- `removeInvalidPrefixes`. -/
def removeInvalidPrefixes (text : Text) : Text :=
  if (ascii "ibc/").isPrefixOf text ∧ text ≠ [] then removeInvalidPrefixes (text.drop 4)
  else if (ascii "erc20/").isPrefixOf text ∧ text ≠ [] then removeInvalidPrefixes (text.drop 6)
  else text
termination_by text.length
decreasing_by
  all_goals
    rename_i h
    have hpos := List.length_pos_iff.mpr h.2
    rw [List.length_drop]
    omega

/-- `SanitizeERC20Name`. -/
def sanitizeERC20Name (name : Text) : Text :=
  removeInvalidPrefixes ((removeSpecialChars (removeLeadingNumbers name)).take 128)

/-! ## Coins and tokens -/

/-- The bank: balances, supplies and the metadata of denominations. -/
structure Bank where
  balances : Address → Text → Nat
  supply : Text → Nat
  metadata : Text → Option Metadata

/-- A standard ERC-20 contract. -/
structure Token where
  balances : Ledger
  totalSupply : Nat

/-- The prefix stores of the module: the pairs by id, and the two indexes of ids. -/
structure Registry where
  pairs : KVStore TokenPair
  byERC20 : KVStore Key
  byDenom : KVStore Key

/-- What the module reads and writes. -/
structure State where
  params : Params
  registry : Registry
  bank : Bank
  /-- the contracts at the addresses that have code -/
  tokens : Address → Option Token

/-- A method of a token contract, called by the module or in the name of a user. -/
inductive Call where
  | balanceOf (contract account : Address)
  | mint (contract dst : Address) (n : Nat)
  | burnCoins (contract src : Address) (n : Nat)
  | burn (contract : Address) (n : Nat)
  | transfer (caller contract dst : Address) (n : Nat)

def Call.method : Call → String
  | .balanceOf _ _ => "balanceOf"
  | .mint _ _ _ => "mint"
  | .burnCoins _ _ _ => "burnCoins"
  | .burn _ _ => "burn"
  | .transfer _ _ _ _ => "transfer"

def Call.contract : Call → Address
  | .balanceOf contract _ => contract
  | .mint contract _ _ => contract
  | .burnCoins contract _ _ => contract
  | .burn contract _ => contract
  | .transfer _ contract _ _ => contract

/-- The other modules. -/
structure Env where
  /-- `types.ModuleAddress` -/
  moduleAddress : Address
  /-- `common.Address.String` -/
  addressString : Address → Text
  /-- `tmhash.Sum` -/
  sum : Text → Key
  /-- `banktypes.Metadata.Validate` -/
  metadataValid : Metadata → Bool
  /-- `ibctransfertypes.ValidateIBCDenom` -/
  validIBCDenom : Text → Bool
  /-- the address of the contract deployed for a coin, `none` if the deployment fails -/
  deploy : State → Metadata → Option Address
  /-- the answers of a contract to `name`, `symbol` and `decimals` -/
  query : State → Address → Option ERC20Data
  /-- the bank's list of accounts that may not receive coins -/
  blockedAddr : Address → Bool
  /-- `IsSendEnabledCoin` -/
  sendEnabled : Text → Bool
  /-- the bank's own reasons to decline a send, a mint or a burn -/
  refuses : Bank → Address → Address → Text → Nat → Bool
  /-- a call of the EVM may fail for reasons of its own -/
  callFails : State → Call → Bool
  /-- the call emits an `Approval` event -/
  approvalEvent : State → Call → Bool
  /-- the id of the `Transfer` event in the token's ABI -/
  transferID : Text
  /-- the account is a module account -/
  isModuleAccount : Address → Bool
  /-- `BondDenom` of the staking module -/
  bondDenom : Text

/-! ## Errors -/

/-- What a call returns if it fails: a registered error with the values its text shows, or an error
of the bank or the EVM. -/
inductive Err where
  | erc20Disabled (subject : String)
  | coinRegistered (name : Text)
  | noSupply (base : Text)
  | metadataInvalid (name : Text)
  | deployFailed (name : Text)
  | contractRegistered (contract : Address)
  | queryFailed (contract : Address)
  | metadataRegistered
  | denomRegistered (name : Text)
  | tokenDataInvalid (contract : Address)
  | pairNotFoundByID (token : Text)
  | pairNotFound (token : Text)
  | pairDisabled (token : Text)
  | receiverBlocked (receiver : Address)
  | sendDisabled (token : Text)
  | undefinedOwner
  | balanceUnknown
  | escrowFailed (denom : Text) (n : Nat)
  | bankRefused (denom : Text) (n : Nat)
  | burnFailed (denom : Text) (n : Nat)
  | callFailed (method : String) (contract : Address)
  | tokenBalance (expected actual : Nat)
  | coinBalance (expected actual : Nat)
  | unexpectedApproval
  | invalidMetadata
  | evmDenom (base : Text)
  | invalidIBCDenom (base : Text)
  | notVoucher (base : Text)

end HyperPax.Erc20
