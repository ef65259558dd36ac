/-
  Attestor/Verify.lean --- verifying an attestation quote.

  Source: precompiles/teeattestor/{envelope,intel_tdx,amd_sev_snp,nvidia,intel_sgx,handlers}.go
  (parseEnvelope, rootsContain, the verify functions, dispatchVerify),
  x/attestor/types/{keys,params,errors,types}.go and x/attestor/keeper/{roots,params}.go
  (RootOf, RootCount, RootsForFamily, GetParams).

  Certificates, keys and signatures are those of the Go library: they enter as a parameter.
  Stored records are values, not their JSON or big-endian text.
-/
import HyperPax.Lib.Abi
import HyperPax.Lib.KVStore

set_option autoImplicit false

namespace HyperPax.Attestor

open Lib

/-! ## Families, parameters, errors -/

def familyIntelTDX : UInt8 := 0
def familyAMDSEVSNP : UInt8 := 1
def familyNVIDIAH100 : UInt8 := 2
def familyIntelSGX : UInt8 := 3
def familyMax : UInt8 := familyIntelSGX

/-- `FamilyName`. -/
def familyName (family : UInt8) : String :=
  if family = familyIntelTDX then "intel_tdx"
  else if family = familyAMDSEVSNP then "amd_sev_snp"
  else if family = familyNVIDIAH100 then "nvidia_h100"
  else if family = familyIntelSGX then "intel_sgx"
  else "unknown"

/-- `types.Params`, without the gas prices. -/
structure Params where
  /-- in seconds -/
  maxAttestationAge : Int64
  debugAllowed : Bool
deriving DecidableEq

/-- `types.DefaultParams`. -/
def defaultParams : Params := ⟨600, false⟩

/-- The errors of a verification: a registered sentinel with the values or the text that wraps
it. -/
inductive Err where
  | unknownFamily (family : UInt8)
  | noRootsLoaded (family : String)
  | invalidQuote (text : String)
  | untrustedChain (text : String)
  | attestationStale (age max : Int64)
  | debugRejected
deriving DecidableEq

/-! ## The stored roots -/

/-- A stored record: `0x01 | family | be4(index)` holds a root, `0x02 | family` the number of
roots, `0x03` the parameters. -/
inductive Value where
  | root (bz : List UInt8)
  | count (n : UInt32)
  | params (p : Params)
deriving DecidableEq

/-- The module's store. -/
abbrev Store : Type := KVStore Value

/-- `RootKey`. -/
def rootKey (family : UInt8) (index : UInt32) : Key :=
  0x01 :: family :: Abi.bigEndian 4 index.toNat

/-- `RootCountKey`. -/
def rootCountKey (family : UInt8) : Key := [0x02, family]

def paramsKey : Key := [0x03]

def Value.root? : Value → Option (List UInt8)
  | .root bz => some bz
  | _ => none

def Value.count? : Value → Option UInt32
  | .count n => some n
  | _ => none

def Value.params? : Value → Option Params
  | .params p => some p
  | _ => none

/-- `RootOf`. -/
def rootOf (store : Store) (family : UInt8) (index : UInt32) : Option (List UInt8) :=
  if familyMax < family then none else store[rootKey family index]?.bind Value.root?

/-- `RootCount`. -/
def rootCount (store : Store) (family : UInt8) : UInt32 :=
  if familyMax < family then 0 else (store[rootCountKey family]?.bind Value.count?).getD 0

/-- `RootsForFamily`: the roots in index order. -/
def rootsForFamily (store : Store) (family : UInt8) : List (List UInt8) :=
  (List.range (rootCount store family).toNat).filterMap fun i => rootOf store family (.ofNat i)

/-- `GetParams`. -/
def getParams (store : Store) : Params :=
  (store[paramsKey]?.bind Value.params?).getD defaultParams

/-! ## The envelope -/

def envelopeMagic : List UInt8 := [0x50, 0x58, 0x56, 0x45, 0x01]

def envelopeMagicLen : Nat := 5
def envelopeMRTDOffset : Nat := 7
def envelopeReportOffset : Nat := envelopeMRTDOffset + 32
def envelopeTSOffset : Nat := envelopeReportOffset + 32
def envelopeTSLen : Nat := 8
def envelopeNonceOffset : Nat := envelopeTSOffset + envelopeTSLen
def envelopeSigLenOffset : Nat := envelopeNonceOffset + 16
def envelopeMinLen : Nat := envelopeSigLenOffset + 2 + 2

/-- The parsed envelope. -/
structure Envelope where
  family : UInt8
  debug : Bool
  mrtd : Vector UInt8 32
  reportData : Vector UInt8 32
  timestamp : UInt64
  nonce : Vector UInt8 16
  signature : List UInt8
  pubkey : List UInt8
  signedPrefix : List UInt8

/-- `data[offset : offset+length]`, within the bounds. -/
def slice (data : List UInt8) (offset length : Nat) : List UInt8 := (data.drop offset).take length

/-- `copy` into an array of `n` bytes. -/
def copyOf (n : Nat) (data : List UInt8) (offset : Nat) : Vector UInt8 n :=
  .ofFn fun i => data.getD (offset + i) 0

/-- `binary.BigEndian.Uint16` at an offset. -/
def uint16At (data : List UInt8) (offset : Nat) : Nat := Abi.fromBigEndian (slice data offset 2)

/-- The timestamp field of a quote. -/
def quoteTimestamp (data : List UInt8) : UInt64 :=
  .ofNat (Abi.fromBigEndian (slice data envelopeTSOffset envelopeTSLen))

/-- `parseEnvelope`. -/
def parseEnvelope (family : UInt8) (data : List UInt8) : Except Err Envelope :=
  if data.length < envelopeMinLen then .error (.invalidQuote "envelope too short")
  else if data.take envelopeMagicLen ≠ envelopeMagic then .error (.invalidQuote "magic mismatch")
  else
    let famByte := data.getD envelopeMagicLen 0
    if famByte ≠ family then
      .error (.invalidQuote s!"family mismatch: envelope={famByte}, dispatch={family}")
    else
      let debugByte := data.getD (envelopeMagicLen + 1) 0
      if 1 < debugByte then .error (.invalidQuote "debug byte must be 0 or 1")
      else
        let sigLen := uint16At data envelopeSigLenOffset
        let pkLenOffset := envelopeSigLenOffset + 2 + sigLen
        if data.length < pkLenOffset + 2 then
          .error (.invalidQuote "signature exceeds envelope length")
        else
          let pkLen := uint16At data pkLenOffset
          if data.length < pkLenOffset + 2 + pkLen then
            .error (.invalidQuote "pubkey exceeds envelope length")
          else
            .ok {
              family := famByte
              debug := debugByte = 1
              mrtd := copyOf 32 data envelopeMRTDOffset
              reportData := copyOf 32 data envelopeReportOffset
              timestamp := quoteTimestamp data
              nonce := copyOf 16 data envelopeNonceOffset
              signature := slice data (envelopeSigLenOffset + 2) sigLen
              pubkey := slice data (pkLenOffset + 2) pkLen
              signedPrefix := data.take envelopeSigLenOffset }

/-- `rootsContain`. -/
def rootsContain (roots : List (List UInt8)) (pubkey : List UInt8) : Bool :=
  roots.any fun r => r = pubkey

/-! ## Signatures -/

/-- The signature checks of the Go library.  A parse gives nothing for bytes of another form;
`checkSignature` gives the text of its error. -/
structure Crypto where
  Certificate : Type
  PublicKey : Type
  parseCertificate : List UInt8 → Option Certificate
  /-- `cert.CheckSignature(cert.SignatureAlgorithm, …)` -/
  certificateSigned : Certificate → (signed signature : List UInt8) → Bool
  parsePKIXPublicKey : List UInt8 → Option PublicKey
  /-- `CheckSignature(x509.ECDSAWithSHA256, …)` -/
  checkSignature : PublicKey → (signed signature : List UInt8) → Except String Unit
  /-- `ed25519.Verify` -/
  ed25519Verify : (pubkey signed signature : List UInt8) → Bool

variable (crypto : Crypto)

/-- `verifyEd25519`. -/
def verifyEd25519 (env : Envelope) : Except String Unit :=
  if env.pubkey.length ≠ 32 then .error "pubkey is not 32 bytes (Ed25519)"
  else if env.signature.length ≠ 64 then .error "signature is not 64 bytes (Ed25519)"
  else if crypto.ed25519Verify env.pubkey env.signedPrefix env.signature then .ok ()
  else .error "Ed25519 signature verification failed"

/-- `verifyECDSAOverDER`: the key of a certificate, and if that does not do the raw key. -/
def verifyECDSAOverDER (env : Envelope) : Except String Unit :=
  if (crypto.parseCertificate env.pubkey).any fun cert =>
      crypto.certificateSigned cert env.signedPrefix env.signature then .ok ()
  else
    match crypto.parsePKIXPublicKey env.pubkey with
    | none => .error "pubkey is neither a parseable certificate nor a PKIX SubjectPublicKeyInfo"
    | some pub => crypto.checkSignature pub env.signedPrefix env.signature

/-- `types.Attestation`. -/
structure Attestation where
  family : UInt8
  mrtd : Vector UInt8 32
  reportData : Vector UInt8 32
  timestamp : UInt64
  debug : Bool
deriving DecidableEq

/-- `extractAttestation`. -/
def extractAttestation (env : Envelope) : Attestation :=
  ⟨env.family, env.mrtd, env.reportData, env.timestamp, env.debug⟩

/-- The four verifiers differ in the family, the check of the signature and the name in their
errors. -/
def verifyEnvelope (family : UInt8) (name : String) (check : Envelope → Except String Unit)
    (roots : List (List UInt8)) (quote : List UInt8) : Except Err Attestation := do
  let env ← parseEnvelope family quote
  if rootsContain roots env.pubkey = false then
    .error (.untrustedChain s!"{name}: envelope pubkey not in trusted roots")
  else
    match check env with
    | .error text => .error (.invalidQuote s!"{name}: {text}")
    | .ok _ => .ok (extractAttestation env)

/-- `verifyIntelTDX`; the next three are those of the other families. -/
def verifyIntelTDX : List (List UInt8) → List UInt8 → Except Err Attestation :=
  verifyEnvelope familyIntelTDX "TDX" (verifyECDSAOverDER crypto)

def verifyAMDSEVSNP : List (List UInt8) → List UInt8 → Except Err Attestation :=
  verifyEnvelope familyAMDSEVSNP "SEV-SNP" (verifyECDSAOverDER crypto)

def verifyNVIDIA : List (List UInt8) → List UInt8 → Except Err Attestation :=
  verifyEnvelope familyNVIDIAH100 "NVIDIA" (verifyEd25519 crypto)

def verifyIntelSGX : List (List UInt8) → List UInt8 → Except Err Attestation :=
  verifyEnvelope familyIntelSGX "SGX" (verifyECDSAOverDER crypto)

/-- The switch of `dispatchVerify`. -/
def verifyFamily (family : UInt8) (roots : List (List UInt8)) (quote : List UInt8) :
    Except Err Attestation :=
  if family = familyIntelTDX then verifyIntelTDX crypto roots quote
  else if family = familyAMDSEVSNP then verifyAMDSEVSNP crypto roots quote
  else if family = familyNVIDIAH100 then verifyNVIDIA crypto roots quote
  else if family = familyIntelSGX then verifyIntelSGX crypto roots quote
  else .error (.unknownFamily family)

/-- `now - int64(timestamp)`, both 64-bit. -/
def ageAt (now : Int64) (timestamp : UInt64) : Int64 := now - timestamp.toInt64

/-- `dispatchVerify`, at a block time. -/
def dispatchVerify (store : Store) (now : Int64) (family : UInt8) (quote : List UInt8) :
    Except Err Attestation :=
  if familyMax < family then .error (.unknownFamily family)
  else
    let roots := rootsForFamily store family
    if roots = [] then .error (.noRootsLoaded (familyName family))
    else do
      let att ← verifyFamily crypto family roots quote
      let params := getParams store
      if att.debug ∧ params.debugAllowed = false then .error .debugRejected
      else
        let age := ageAt now att.timestamp
        if params.maxAttestationAge < age then
          .error (.attestationStale age params.maxAttestationAge)
        else .ok att

end HyperPax.Attestor
