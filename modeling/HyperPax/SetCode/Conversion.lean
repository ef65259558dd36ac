/-
  SetCode/Conversion.lean --- set-code transactions from geth and back.

  Source: x/evm/types/set_code_tx.go (NewSetCodeTx, AsEthereumData, SetSignatureValues and the
  getters), x/evm/types/access_list.go, x/evm/types/tx_data.go (rawSignatureValues),
  types/int.go.

  A geth integer is absent or a number.  The message has some of them as integers of 256 bits and
  the others as bytes, where zero is absent; addresses and hashes are hexadecimal texts.  Which
  letters of an address are capitals is a checksum, and a parameter here.
-/
import HyperPax.Base.Address
import HyperPax.Lib.Abi
import HyperPax.Lib.Hex
import HyperPax.SetCode.Wire

set_option autoImplicit false

namespace HyperPax.SetCode

open Lib Abi List

/-- `common.Hash`. -/
abbrev Hash : Type := { bytes : List UInt8 // bytes.length = 32 }

/-- `common.BytesToHash`: the last 32 bytes, left-padded with zeros. -/
def bytesToHash (b : List UInt8) : Hash :=
  ⟨.replicate (32 - b.length) 0 ++ b.drop (b.length - 32), by
    rw [length_append, length_replicate, length_drop]
    omega⟩

/-! ## The transactions of geth -/

structure EthAccessTuple where
  address : Address
  storageKeys : List Hash

structure EthAuthorization where
  chainID : Option Nat
  address : Address
  nonce : UInt64
  v : Option Nat
  r : Option Nat
  s : Option Nat

/-- `ethtypes.SetCodeTx`. -/
structure EthSetCodeTx where
  chainID : Option Nat
  nonce : UInt64
  gasTipCap : Option Nat
  gasFeeCap : Option Nat
  gas : UInt64
  toAddress : Option Address
  value : Option Nat
  data : List UInt8
  accessList : List EthAccessTuple
  authList : List EthAuthorization
  v : Option Nat
  r : Option Nat
  s : Option Nat

/-- An absent integer is hashed as zero. -/
def orZero (i : Option Nat) : Option Nat := some (i.getD 0)

def EthAuthorization.values (a : EthAuthorization) : EthAuthorization :=
  { a with chainID := orZero a.chainID, v := orZero a.v, r := orZero a.r, s := orZero a.s }

/-- What the hash to sign, the sender and the authorities are computed from. -/
def EthSetCodeTx.values (tx : EthSetCodeTx) : EthSetCodeTx :=
  { tx with
    chainID := orZero tx.chainID, gasTipCap := orZero tx.gasTipCap
    gasFeeCap := orZero tx.gasFeeCap, value := orZero tx.value
    authList := tx.authList.map (·.values)
    v := orZero tx.v, r := orZero tx.r, s := orZero tx.s }

/-- An integer that is absent or fits 256 bits. -/
def Fits (i : Option Nat) : Prop := ∀ n ∈ i, n < 2 ^ 256

structure EthSetCodeTx.Fits (tx : EthSetCodeTx) : Prop where
  chainID : SetCode.Fits tx.chainID
  gasTipCap : SetCode.Fits tx.gasTipCap
  gasFeeCap : SetCode.Fits tx.gasFeeCap
  value : SetCode.Fits tx.value
  authList : ∀ a ∈ tx.authList, SetCode.Fits a.chainID

/-! ## Conversion -/

/-- `AccessTuple`, of texts. -/
structure AccessTuple where
  address : List UInt8
  storageKeys : List (List UInt8)

inductive ConversionError where
  /-- "big int out of bound" -/
  | outOfBound (i : Nat)
  /-- "invalid authorization chain_id" -/
  | invalidChainID (i : Nat)
  /-- the panic "NewIntFromBigInt() out of bound" -/
  | panic (i : Nat)

/-- `Address.Hex`, with the capitals of the checksum. -/
def addressHex (checksum : Address → Nat → Bool) (a : Address) : List UInt8 :=
  Hex.toHex (checksum a) a.bytes

/-- `common.HexToAddress`. -/
def hexToAddress (text : List UInt8) : Address := .ofBytes (Hex.fromHex text)

/-- `Hash.String`. -/
def hashString (h : Hash) : List UInt8 := Hex.toHex (fun _ => false) h.val

/-- `common.HexToHash`. -/
def hexToHash (text : List UInt8) : Hash := bytesToHash (Hex.fromHex text)

/-- `big.Int.Bytes`; no bytes for an absent integer. -/
def intToBytes (i : Option Nat) : List UInt8 :=
  (i.map fun n => bigEndian ((n.size + 7) / 8) n).getD []

/-- `big.Int.SetBytes`, absent if there are no bytes. -/
def intOfBytes (b : List UInt8) : Option Nat :=
  if 0 < b.length then some (fromBigEndian b) else none

/-- `SafeNewIntFromBigInt` of an integer that may be absent. -/
def safeNewInt (error : Nat → ConversionError) : Option Nat → Except ConversionError (Option Nat)
  | some i => if i.size ≤ 256 then .ok (some i) else .error (error i)
  | none => .ok none

variable (checksum : Address → Nat → Bool)

/-- `NewAccessList`. -/
def newAccessList (accessList : List EthAccessTuple) : List AccessTuple :=
  accessList.map fun t => ⟨addressHex checksum t.address, t.storageKeys.map hashString⟩

/-- The loop's body in `NewSetCodeTx`. -/
def newSetCodeAuthorization (a : EthAuthorization) :
    Except ConversionError (SetCodeAuthorization Nat) := do
  let chainID ← safeNewInt .invalidChainID a.chainID
  return ⟨chainID, addressHex checksum a.address, a.nonce, intToBytes a.v, intToBytes a.r,
    intToBytes a.s⟩

/-- `NewSetCodeTx` of a set-code transaction. -/
def newSetCodeTx (tx : EthSetCodeTx) : Except ConversionError (SetCodeTx Nat AccessTuple) := do
  let amount ← safeNewInt .outOfBound tx.value
  let gasFeeCap ← safeNewInt .outOfBound tx.gasFeeCap
  let gasTipCap ← safeNewInt .outOfBound tx.gasTipCap
  let authList ← tx.authList.mapM (newSetCodeAuthorization checksum)
  let chainID ← safeNewInt .panic tx.chainID
  return {
    chainID := chainID, nonce := tx.nonce, gasTipCap := gasTipCap, gasFeeCap := gasFeeCap
    gasLimit := tx.gas, toAddress := (tx.toAddress.map (addressHex checksum)).getD []
    amount := amount, data := tx.data, accesses := newAccessList checksum tx.accessList
    v := intToBytes tx.v, r := intToBytes tx.r, s := intToBytes tx.s, authList := authList }

/-- `ToEthAccessList`. -/
def toEthAccessList (accesses : List AccessTuple) : List EthAccessTuple :=
  accesses.map fun t => ⟨hexToAddress t.address, t.storageKeys.map hexToHash⟩

/-- `GetTo`. -/
def getTo (text : List UInt8) : Option Address := if text = [] then none else hexToAddress text

/-- The loop's body in `AsEthereumData`. -/
def SetCodeAuthorization.asEthereumData (a : SetCodeAuthorization Nat) : EthAuthorization :=
  ⟨a.chainID, hexToAddress a.address, a.nonce, intOfBytes a.v, intOfBytes a.r, intOfBytes a.s⟩

/-- `AsEthereumData`. -/
def SetCodeTx.asEthereumData (tx : SetCodeTx Nat AccessTuple) : EthSetCodeTx where
  chainID := tx.chainID
  nonce := tx.nonce
  gasTipCap := tx.gasTipCap
  gasFeeCap := tx.gasFeeCap
  gas := tx.gasLimit
  toAddress := getTo tx.toAddress
  value := tx.amount
  data := tx.data
  accessList := toEthAccessList tx.accesses
  authList := tx.authList.map (·.asEthereumData)
  v := intOfBytes tx.v
  r := intOfBytes tx.r
  s := intOfBytes tx.s

/-! ## There and back -/

@[simp] theorem orZero_intOfBytes (i : Option Nat) :
    orZero (intOfBytes (intToBytes i)) = orZero i := by
  cases i with
  | none => rfl
  | some n =>
    have hlt : n < 256 ^ ((n.size + 7) / 8) := by
      calc n < 2 ^ n.size := Nat.lt_size_self n
        _ ≤ 2 ^ (8 * ((n.size + 7) / 8)) := Nat.pow_le_pow_right (by decide) (by omega)
        _ = 256 ^ ((n.size + 7) / 8) := by rw [Nat.pow_mul]
    simp only [orZero, intOfBytes, intToBytes, Option.map_some, Option.getD_some, length_bigEndian,
      fromBigEndian_bigEndian, Nat.mod_eq_of_lt hlt]
    split
    · rfl
    · rename_i hzero
      have hsize : n.size = 0 := by omega
      rw [Nat.size_eq_zero.mp hsize]
      rfl

@[simp] theorem hexToAddress_addressHex (a : Address) :
    hexToAddress (addressHex checksum a) = a := by
  rw [hexToAddress, addressHex, Hex.fromHex_toHex, Address.ofBytes_bytes]

@[simp] theorem hexToHash_hashString (h : Hash) : hexToHash (hashString h) = h := by
  refine Subtype.ext ?_
  simp [hexToHash, hashString, bytesToHash, h.property]

theorem getTo_addressHex (a : Option Address) :
    getTo ((a.map (addressHex checksum)).getD []) = a := by
  cases a with
  | none => rfl
  | some a => exact congrArg some (hexToAddress_addressHex checksum a)

theorem safeNewInt_eq {i : Option Nat} (h : Fits i) (error : Nat → ConversionError) :
    safeNewInt error i = .ok i := by
  cases i with
  | none => rfl
  | some n => exact if_pos (Nat.size_le.mpr (h n rfl))

theorem toEthAccessList_newAccessList (accessList : List EthAccessTuple) :
    toEthAccessList (newAccessList checksum accessList) = accessList := by
  simp [toEthAccessList, newAccessList, Function.comp_def]

theorem authorizations_values {authList : List EthAuthorization}
    (h : ∀ a ∈ authList, Fits a.chainID) :
    ∃ auths, authList.mapM (newSetCodeAuthorization checksum) = .ok auths ∧
      auths.map (·.asEthereumData.values) = authList.map (·.values) := by
  induction authList with
  | nil => exact ⟨[], rfl, rfl⟩
  | cons a authList ih =>
    obtain ⟨hfirst, hrest⟩ := forall_mem_cons.mp h
    obtain ⟨auths, hauths, hvalues⟩ := ih hrest
    rw [mapM_cons, newSetCodeAuthorization, safeNewInt_eq hfirst, hauths]
    refine ⟨_, rfl, ?_⟩
    rw [map_cons, map_cons, hvalues]
    simp [SetCodeAuthorization.asEthereumData, EthAuthorization.values]

/-- A transaction whose integers fit is converted, and what comes back has the values of the
transaction in every field. -/
theorem asEthereumData_newSetCodeTx (tx : EthSetCodeTx) (h : tx.Fits) :
    ∃ data, newSetCodeTx checksum tx = .ok data ∧ data.asEthereumData.values = tx.values := by
  obtain ⟨auths, hauths, hvalues⟩ := authorizations_values checksum h.authList
  rw [newSetCodeTx, safeNewInt_eq h.value, safeNewInt_eq h.gasFeeCap, safeNewInt_eq h.gasTipCap,
    hauths, safeNewInt_eq h.chainID]
  refine ⟨_, rfl, ?_⟩
  simp [SetCodeTx.asEthereumData, EthSetCodeTx.values, toEthAccessList_newAccessList,
    Function.comp_def, hvalues, getTo_addressHex]

/-- The largest chain, no value, and two authorizations, one of them with zeros. -/
theorem asEthereumData_newSetCodeTx_two :
    let tx : EthSetCodeTx := ⟨some (2 ^ 256 - 1), 3, some 1, some 2, 21000, some (.ofNat 9), none,
      [1], [⟨.ofNat 8, [bytesToHash [7]]⟩],
      [⟨some 0, .ofNat 0xab, 5, some 0, some 6, none⟩, ⟨none, .ofNat 1, 0, none, some 256, some 1⟩],
      some 1, some (2 ^ 256), some 0⟩
    ∃ data, newSetCodeTx (fun _ i => i % 2 = 0) tx = .ok data ∧
      data.asEthereumData.values = tx.values :=
  asEthereumData_newSetCodeTx _ _ ⟨by simp [Fits], by simp [Fits], by simp [Fits], by simp [Fits],
    by simp [Fits]⟩

end HyperPax.SetCode
