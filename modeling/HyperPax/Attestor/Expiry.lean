/-
  Attestor/Expiry.lean --- how long an attestation is accepted.

  Only the age of a quote depends on the block time.  It is the difference of two signed
  words, and only an age above the maximum is rejected: a quote dated ahead of the block
  time has a negative age, and stays acceptable until its date and the maximal age have
  passed.  A timestamp of `2^63` or more is taken for a negative date; from the block time
  `timestamp - 2^63` on, the difference wraps to a negative age.
-/
import HyperPax.Attestor.Verify

set_option autoImplicit false

namespace HyperPax.Attestor

open Lib Int64

/-! ## What does not depend on the block time -/

variable {family : UInt8}

theorem timestamp_of_parseEnvelope {data : List UInt8} {env : Envelope}
    (h : parseEnvelope family data = .ok env) : env.timestamp = quoteTimestamp data := by
  unfold parseEnvelope at h
  dsimp only at h
  split_ifs at h
  cases h
  rfl

theorem timestamp_of_verifyEnvelope {name : String} {check : Envelope → Except String Unit}
    {roots : List (List UInt8)} {quote : List UInt8} {att : Attestation}
    (h : verifyEnvelope family name check roots quote = .ok att) :
    att.timestamp = quoteTimestamp quote := by
  unfold verifyEnvelope at h
  cases hparse : parseEnvelope family quote with
  | error =>
    rw [hparse] at h
    cases h
  | ok env =>
    rw [hparse] at h
    change (if rootsContain roots env.pubkey = false then _ else _) = _ at h
    split_ifs at h
    cases hcheck : check env with
    | error =>
      rw [hcheck] at h
      cases h
    | ok =>
      rw [hcheck] at h
      cases h
      exact timestamp_of_parseEnvelope hparse

section

variable {crypto : Crypto} {store : Store} {now : Int64} {family : UInt8} {quote : List UInt8}
  {att : Attestation}

theorem timestamp_of_verifyFamily {roots : List (List UInt8)}
    (h : verifyFamily crypto family roots quote = .ok att) :
    att.timestamp = quoteTimestamp quote := by
  unfold verifyFamily at h
  split_ifs at h <;> exact timestamp_of_verifyEnvelope h

/-- The checks that do not look at the clock. -/
structure Verified (crypto : Crypto) (store : Store) (family : UInt8) (quote : List UInt8)
    (att : Attestation) : Prop where
  known : family ≤ familyMax
  loaded : rootsForFamily store family ≠ []
  verified : verifyFamily crypto family (rootsForFamily store family) quote = .ok att
  debug : att.debug → (getParams store).debugAllowed

theorem dispatchVerify_eq_ok : dispatchVerify crypto store now family quote = .ok att ↔
      Verified crypto store family quote att ∧
        ageAt now att.timestamp ≤ (getParams store).maxAttestationAge := by
  unfold dispatchVerify
  by_cases hknown : familyMax < family
  · rw [if_pos hknown]
    exact iff_of_false (fun h => by cases h) fun h => absurd hknown (UInt8.not_lt.mpr h.1.known)
  rw [if_neg hknown]
  by_cases hempty : rootsForFamily store family = []
  · rw [if_pos hempty]
    exact iff_of_false (fun h => by cases h) fun h => h.1.loaded hempty
  rw [if_neg hempty]
  cases hverify : verifyFamily crypto family (rootsForFamily store family) quote with
  | error =>
    refine iff_of_false (fun h => by cases h) fun h => ?_
    have hsame := hverify.symm.trans h.1.verified
    cases hsame
  | ok att' =>
    change (if att'.debug ∧ (getParams store).debugAllowed = false then _ else _) = _ ↔ _
    constructor
    · intro h
      split_ifs at h with hdebug hage
      cases h
      refine ⟨⟨UInt8.not_lt.mp hknown, hempty, hverify, fun hd => ?_⟩, Int64.not_lt.mp hage⟩
      exact eq_true_of_ne_false fun hallowed => hdebug ⟨hd, hallowed⟩
    rintro ⟨hverified, hage⟩
    obtain rfl : att' = att := Except.ok.inj (hverify.symm.trans hverified.verified)
    have hdebug : ¬ (att'.debug ∧ (getParams store).debugAllowed = false) := by
      rintro ⟨hd, hallowed⟩
      rw [hverified.debug hd] at hallowed
      cases hallowed
    rw [if_neg hdebug, if_neg (Int64.not_lt.mpr hage)]

theorem dispatchVerify_eq_error (hverified : Verified crypto store family quote att) :
    (∃ e, dispatchVerify crypto store now family quote = .error e) ↔
      (getParams store).maxAttestationAge < ageAt now att.timestamp := by
  constructor
  · rintro ⟨e, herror⟩
    refine Int64.not_le.mp fun hage => ?_
    rw [dispatchVerify_eq_ok.mpr ⟨hverified, hage⟩] at herror
    cases herror
  intro hold
  cases hresult : dispatchVerify crypto store now family quote with
  | error e => exact ⟨e, rfl⟩
  | ok att' =>
    obtain ⟨hverified', hage⟩ := dispatchVerify_eq_ok.mp hresult
    obtain rfl : att' = att :=
      Except.ok.inj (hverified'.verified.symm.trans hverified.verified)
    exact absurd hage (Int64.not_le.mpr hold)

end

/-! ## The age -/

section

variable {now maxAge later : Int64} {timestamp : UInt64}

theorem toInt_ageAt : (ageAt now timestamp).toInt =
    (now.toInt - timestamp.toNat).bmod (2 ^ 64) := by
  have hdate : timestamp.toInt64.toInt = (timestamp.toNat : Int).bmod (2 ^ 64) :=
    BitVec.toInt_eq_toNat_bmod timestamp.toBitVec
  rw [ageAt, toInt_sub, hdate, Int.sub_bmod_bmod]

theorem toInt_ageAt_of_le (hlow : (timestamp.toNat : Int) ≤ now.toInt + 2 ^ 63)
    (hhigh : now.toInt < timestamp.toNat + 2 ^ 63) :
    (ageAt now timestamp).toInt = now.toInt - timestamp.toNat := by
  rw [toInt_ageAt, Int.bmod_def]
  split <;> omega

theorem lt_ageAt_of_later (hpast : (timestamp.toNat : Int) ≤ now.toInt) (hmax : 0 < maxAge.toInt)
    (hlater : now.toInt + maxAge.toInt < later.toInt) : maxAge < ageAt later timestamp := by
  have hbound := later.toInt_lt
  have hage : (ageAt later timestamp).toInt = later.toInt - timestamp.toNat :=
    toInt_ageAt_of_le (by omega) (by omega)
  rw [lt_iff_toInt_lt, hage]
  omega

theorem ageAt_le_of_ahead (hahead : now.toInt < timestamp.toNat)
    (hnear : (timestamp.toNat : Int) ≤ now.toInt + maxAge.toInt)
    (hlater : later.toInt = now.toInt + maxAge.toInt + 1) : ageAt later timestamp ≤ maxAge := by
  have hbound := maxAge.toInt_lt
  have hage : (ageAt later timestamp).toInt = later.toInt - timestamp.toNat :=
    toInt_ageAt_of_le (by omega) (by omega)
  rw [le_iff_toInt_le, hage]
  omega

theorem age_expires_iff (hmax : 0 < maxAge.toInt) (hage : ageAt now timestamp ≤ maxAge) :
    ((∀ later : Int64, now.toInt + maxAge.toInt < later.toInt → maxAge < ageAt later timestamp) ∧
        |now.toInt - timestamp.toNat| ≤ maxAge.toInt) ↔
      (timestamp.toNat ≤ now.toInt ∨ 2 ^ 63 ≤ now.toInt + maxAge.toInt + 1 ∧
          timestamp.toNat ≤ now.toInt + maxAge.toInt) := by
  -- an accepted quote is not too old, whatever its date
  have hyoung : now.toInt - timestamp.toNat ≤ maxAge.toInt := by
    by_cases hpast : (timestamp.toNat : Int) ≤ now.toInt
    · have hlt := now.toInt_lt
      rw [le_iff_toInt_le, toInt_ageAt_of_le (by omega) (by omega)] at hage
      exact hage
    · omega
  constructor
  · rintro ⟨hexpires, hnear⟩
    rw [abs_le] at hnear
    refine or_iff_not_imp_left.mpr fun hahead => ⟨not_lt.mp fun hroom => ?_, by omega⟩
    -- the first block time at which the quote should have expired
    have hnext : (Int64.ofInt (now.toInt + maxAge.toInt + 1)).toInt =
        now.toInt + maxAge.toInt + 1 := toInt_ofInt_of_le (by omega) hroom
    have hold := hexpires _ (by rw [hnext]; omega)
    exact absurd (ageAt_le_of_ahead (by omega) (by omega) hnext) (Int64.not_le.mpr hold)
  · rintro (hpast | ⟨hend, hnear⟩)
    · refine ⟨fun later hlater => lt_ageAt_of_later hpast hmax hlater, ?_⟩
      rw [abs_le]
      omega
    · refine ⟨fun later hlater => absurd later.toInt_lt (by omega), ?_⟩
      rw [abs_le]
      omega

end

/-! ## Expiry -/

/-- Let a quote be accepted at a block time.  It is rejected at every block time later than the
maximal age after that, and its date differs from the block time by at most the maximal age,
exactly if it is not dated ahead of the block time (or no later block time is left). -/
theorem attestation_expires_iff (crypto : Crypto) (store : Store) (family : UInt8)
    (quote : List UInt8) (now : Int64) (att : Attestation)
    (hmax : 0 < (getParams store).maxAttestationAge)
    (haccepted : dispatchVerify crypto store now family quote = .ok att) :
    ((∀ later : Int64, now.toInt + (getParams store).maxAttestationAge.toInt < later.toInt →
        ∃ e, dispatchVerify crypto store later family quote = .error e) ∧
      |now.toInt - att.timestamp.toNat| ≤ (getParams store).maxAttestationAge.toInt) ↔
    ((quoteTimestamp quote).toNat ≤ now.toInt ∨
      2 ^ 63 ≤ now.toInt + (getParams store).maxAttestationAge.toInt + 1 ∧
        (quoteTimestamp quote).toNat ≤ now.toInt + (getParams store).maxAttestationAge.toInt) := by
  obtain ⟨hverified, hage⟩ := dispatchVerify_eq_ok.mp haccepted
  have hpos : 0 < (getParams store).maxAttestationAge.toInt := lt_iff_toInt_lt.mp hmax
  rw [← timestamp_of_verifyFamily hverified.verified, ← age_expires_iff hpos hage]
  simp only [dispatchVerify_eq_error hverified]

/-! ## Examples -/

/-- The key, and the last bytes that are signed. -/
def sealedBy (pubkey signed : List UInt8) : List UInt8 :=
  pubkey ++ signed.drop (signed.length - 32)

/-- A library with this in place of Ed25519, and no other keys. -/
def sealingCrypto : Crypto where
  Certificate := Unit
  PublicKey := Unit
  parseCertificate _ := none
  certificateSigned _ _ _ := false
  parsePKIXPublicKey _ := none
  checkSignature _ _ _ := .error "no key"
  ed25519Verify pubkey signed signature := signature = sealedBy pubkey signed

/-- A store with one NVIDIA root. -/
def oneRoot : Store :=
  ((∅ : Store).insert (rootKey familyNVIDIAH100 0) (.root (.replicate 32 0x11))).insert
    (rootCountKey familyNVIDIAH100) (.count 1)

/-- A quote signed by that root at a date. -/
def quoteDated (timestamp : Nat) : List UInt8 :=
  let signed := envelopeMagic ++ [familyNVIDIAH100, 0] ++ List.replicate 64 0xab ++
    Abi.bigEndian 8 timestamp ++ .replicate 16 0
  signed ++ [0, 64] ++ sealedBy (.replicate 32 0x11) signed ++ [0, 32] ++ .replicate 32 0x11

/-- What such a quote attests. -/
def attestationDated (timestamp : UInt64) : Attestation :=
  ⟨familyNVIDIAH100, .replicate 32 0xab, .replicate 32 0xab, timestamp, false⟩

theorem quoteDated_900_expires :
    dispatchVerify sealingCrypto oneRoot 1000 familyNVIDIAH100 (quoteDated 900) =
        .ok (attestationDated 900) ∧ (∀ later : Int64, 1600 < later.toInt →
        ∃ e, dispatchVerify sealingCrypto oneRoot later familyNVIDIAH100 (quoteDated 900) =
          .error e) := by
  have haccepted : dispatchVerify sealingCrypto oneRoot 1000 familyNVIDIAH100 (quoteDated 900) =
      .ok (attestationDated 900) := by decide +kernel
  have hmax : (getParams oneRoot).maxAttestationAge = 600 := by decide +kernel
  have hexpires := attestation_expires_iff sealingCrypto oneRoot familyNVIDIAH100 (quoteDated 900)
    1000 (attestationDated 900) (by rw [hmax]; decide) haccepted
  rw [hmax] at hexpires
  exact ⟨haccepted, (hexpires.mpr (.inl (by decide +kernel))).1⟩

/-- A quote dated 1000 seconds ahead is accepted, and still accepted after 601 seconds.  One dated
`2^63` is accepted at any time. -/
theorem quoteDated_ahead_accepted :
    dispatchVerify sealingCrypto oneRoot 1000 familyNVIDIAH100 (quoteDated 2000) =
        .ok (attestationDated 2000) ∧
      dispatchVerify sealingCrypto oneRoot 1601 familyNVIDIAH100 (quoteDated 2000) =
        .ok (attestationDated 2000) ∧
      dispatchVerify sealingCrypto oneRoot 1000 familyNVIDIAH100 (quoteDated (2 ^ 63)) =
        .ok (attestationDated (2 ^ 63)) ∧
      dispatchVerify sealingCrypto oneRoot (2 ^ 62) familyNVIDIAH100 (quoteDated (2 ^ 63)) =
        .ok (attestationDated (2 ^ 63)) ∧ (getParams oneRoot).maxAttestationAge = 600 := by
  refine ⟨?_, ?_, ?_, ?_, ?_⟩ <;> decide +kernel

end HyperPax.Attestor
