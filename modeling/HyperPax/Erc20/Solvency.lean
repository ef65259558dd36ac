/-
  Erc20/Solvency.lean --- when tokens and coins are backed in every run.
-/
import HyperPax.Erc20.Receipts

set_option autoImplicit false

namespace HyperPax.Erc20

open Lib KVStore State Option Registry TokenPair

section

variable {env : Env} {s s' : State}

/-! ## Proposals -/

section

variable (henv : env.Lawful) (h : Solvent env s)

include henv h

/-- A pair is registered whose contract is there and that claims nothing yet. -/
theorem Solvent.register {pair : TokenPair}
    (hcontr : s.registry.byERC20[pair.contractKey]? = none)
    (hsome : (s.tokens pair.erc20Address).isSome)
    (hmodule : pair.contractOwner = .ownerModule → s.supplyAt pair.erc20Address = 0)
    (hext : pair.contractOwner = .ownerExternal →
      pair.denom = createDenom (env.addressString pair.erc20Address)) :
    Solvent env { s with registry := s.registry.register env pair } := by
  have hid := h.shape.sound.id_none henv hcontr
  have hcases : ∀ (id : Key) (p : TokenPair),
      (s.registry.register env pair).pairs[id]? = some p →
        p = pair ∨ s.registry.pairs[id]? = some p := by
    intro id p hp
    rw [Registry.register, Registry.setERC20Map, Registry.setDenomMap, Registry.setTokenPair,
      get_insert] at hp
    split at hp
    · exact .inl (Option.some.inj hp).symm
    · exact .inr hp
  refine ⟨⟨h.shape.sound.register henv hcontr, ?_, ?_, ?_⟩, ?_, ?_⟩
  · intro id p hp
    obtain rfl | hp := hcases id p hp
    · exact hsome
    · exact h.shape.contract id p hp
  · intro id p hp howner
    obtain rfl | hp := hcases id p hp
    · exact hext howner
    · exact h.shape.external id p hp howner
  · intro a ha
    refine h.shape.unregistered a ?_
    rw [Registry.register, Registry.setERC20Map, get_insert] at ha
    split at ha
    · cases ha
    · exact ha
  · intro d
    have hzero : pair.claim d (s.supplyAt pair.erc20Address) = 0 := by
      unfold claim
      split_ifs with hclaim
      · exact hmodule hclaim.1
      · rfl
    have hinsert := weight_insert
      (fun _ p => claim p d (s.supplyAt p.erc20Address))
      s.registry.pairs (pair.getID env) pair
    have herase := weight_erase_add
      (fun _ p => claim p d (s.supplyAt p.erc20Address))
      s.registry.pairs (pair.getID env)
    rw [hid, elim_none] at herase
    have hall := h.backed.escrow d
    rw [hzero, herase] at hinsert
    exact hinsert.le.trans hall
  · intro id p hp howner
    obtain rfl | hp := hcases id p hp
    · have hnone := h.shape.unregistered p.erc20Address hcontr
      rw [hext howner, hnone]
      exact Nat.zero_le _
    · exact h.backed.custody id p hp howner

theorem registerCoin_solvent {metadata : Metadata}
    (hregister : registerCoin env s metadata = .ok s') : Solvent env s' := by
  obtain ⟨s₁, contract, hverify, hdeploy, rfl⟩ := registerCoin_ok hregister
  have hsame : s₁.registry = s.registry := by obtain rfl | rfl := verifyMetadata_ok hverify <;> rfl
  have h₁ : Solvent env s₁ := by
    obtain rfl | rfl := verifyMetadata_ok hverify
    · exact h
    · exact h.setBank (fun d => Nat.le_refl _) fun a => Nat.le_refl _
  have hfresh := henv.deploy_fresh s₁ metadata contract hdeploy
  have hcontr : s₁.registry.byERC20[
      (newTokenPair contract metadata.base .ownerModule).contractKey]? = none :=
    isERC20Registered_eq_false.mp hfresh
  have hne : ∀ (id : Key) (p : TokenPair), s₁.registry.pairs[id]? = some p →
      p.erc20Address ≠ contract := fun id p hp =>
    .symm (h₁.shape.registered hp hcontr)
  have h₂ : Solvent env (s₁.setToken contract ⟨fun _ => 0, 0⟩) :=
    ⟨h₁.shape.setToken _ _, h₁.backed.setToken_unregistered hne (fun a _ => Nat.le_refl _) _⟩
  rw [← hsame]
  refine h₂.register henv hcontr ?_ ?_ ?_
  · rw [newTokenPair, setToken_self]
    rfl
  · intro _
    exact supplyAt_of_some (setToken_self s₁ contract _)
  · intro howner
    cases howner

theorem registerERC20_solvent {contract : Address}
    (hregister : registerERC20 env s contract = .ok s') : Solvent env s' := by
  obtain ⟨metadata, -, hsome, -, hcontr, -, rfl⟩ := registerERC20_ok hregister
  have h₁ : Solvent env (s.setBank (s.bank.setDenomMetaData metadata)) :=
    h.setBank (fun d => Nat.le_refl _) fun a => Nat.le_refl _
  refine h₁.register henv (isERC20Registered_eq_false.mp hcontr) hsome ?_ ?_
  · intro howner
    cases howner
  · intro _
    rfl

end

theorem toggleConversion_solvent (h : Solvent env s) {token : Text}
    (htoggle : toggleConversion env s token = .ok s') : Solvent env s' := by
  obtain ⟨pair, id, hget, rfl⟩ := toggleConversion_ok htoggle
  obtain rfl := h.shape.sound.stored id pair hget
  have hcases : ∀ (id : Key) (p : TokenPair),
      (s.registry.setTokenPair env { pair with enabled := !pair.enabled }).pairs[id]? = some p →
        ∃ q, s.registry.pairs[id]? = some q ∧ p.erc20Address = q.erc20Address ∧
          p.denom = q.denom ∧ p.contractOwner = q.contractOwner := by
    intro id p hp
    rw [setTokenPair, get_insert] at hp
    split at hp
    · rename_i hid
      cases hp
      exact ⟨pair, hid ▸ hget, rfl, rfl, rfl⟩
    · exact ⟨p, hp, rfl, rfl, rfl⟩
  refine ⟨⟨h.shape.sound.setTokenPair hget, ?_, ?_, h.shape.unregistered⟩, ?_, ?_⟩
  · intro id p hp
    obtain ⟨q, hq, hcontr, -, -⟩ := hcases id p hp
    rw [hcontr]
    exact h.shape.contract id q hq
  · intro id p hp howner
    obtain ⟨q, hq, hcontr, hdenom, hsame⟩ := hcases id p hp
    rw [hdenom, hcontr]
    exact h.shape.external id q hq (hsame.symm.trans howner)
  · intro d
    have hinsert := weight_insert
      (fun _ p => claim p d (s.supplyAt p.erc20Address))
      s.registry.pairs (pair.getID env) { pair with enabled := !pair.enabled }
    have herase := weight_erase_add
      (fun _ p => claim p d (s.supplyAt p.erc20Address))
      s.registry.pairs (pair.getID env)
    rw [hget, elim_some] at herase
    have hall := h.backed.escrow d
    unfold State.issued at hall
    rw [← herase] at hall
    exact hinsert.le.trans hall
  · intro id p hp howner
    obtain ⟨q, hq, hcontr, hdenom, hsame⟩ := hcases id p hp
    rw [hdenom, hcontr]
    exact h.backed.custody id q hq (hsame.symm.trans howner)

theorem executeProposal_solvent (henv : env.Lawful) (h : Solvent env s) {p : Proposal}
    (hexec : executeProposal env s p = .ok s') : Solvent env s' := by
  obtain ⟨-, -, hexec⟩ := bind_ok.mp hexec
  obtain ⟨-, hexec⟩ := require_bind_ok.mp hexec
  cases p with
  | registerCoin =>
    refine foldlM_invariant (I := fun _ t => Solvent env t) hexec h ?_
    rintro - _ - t t' - ht hone
    exact registerCoin_solvent henv ht hone
  | registerERC20 =>
    refine foldlM_invariant (I := fun _ t => Solvent env t) hexec h ?_
    rintro - _ - _ _ - ht hone
    exact registerERC20_solvent henv ht hone
  | toggleTokenConversion => exact toggleConversion_solvent h hexec

/-! ## Runs -/

/-- Other modules and contracts: nobody spends from the module account or makes coins that stand for
tokens, registered tokens stay, and those of the module are minted by nobody else. -/
structure Harmless (env : Env) (s : State) (bank : Bank) (tokens : Address → Option Token) :
    Prop where
  escrow : ∀ d, s.bank.balances env.moduleAddress d ≤ bank.balances env.moduleAddress d
  supply : ∀ a, bank.supply (createDenom (env.addressString a)) ≤
    s.bank.supply (createDenom (env.addressString a))
  tokens : ∀ (id : Key) (p : TokenPair) (t : Token), s.registry.pairs[id]? = some p →
    s.tokens p.erc20Address = some t → ∃ t', tokens p.erc20Address = some t' ∧
      (p.contractOwner = .ownerModule → t'.totalSupply ≤ t.totalSupply) ∧
      t.balances env.moduleAddress ≤ t'.balances env.moduleAddress

theorem Harmless.solvent (h : Solvent env s) (hregistry : s'.registry = s.registry)
    (hharmless : Harmless env s s'.bank s'.tokens) : Solvent env s' := by
  have htokens : ∀ (id : Key) (p : TokenPair), s.registry.pairs[id]? = some p →
      ∃ t t', s.tokens p.erc20Address = some t ∧ s'.tokens p.erc20Address = some t' ∧
        (p.contractOwner = .ownerModule → t'.totalSupply ≤ t.totalSupply) ∧
        t.balances env.moduleAddress ≤ t'.balances env.moduleAddress := by
    intro id p hp
    obtain ⟨t, ht⟩ := isSome_iff_exists.mp (h.shape.contract id p hp)
    obtain ⟨t', ht', hkept⟩ := hharmless.tokens id p t hp ht
    exact ⟨t, t', ht, ht', hkept⟩
  refine ⟨h.shape.of_registry hregistry ?_ fun a _ => hharmless.supply a, ?_, ?_⟩
  · intro id p hp
    obtain ⟨-, t', -, ht', -⟩ := htokens id p hp
    exact isSome_iff_exists.mpr ⟨t', ht'⟩
  · intro d
    have hless : s'.issued d ≤ s.issued d := by
      unfold State.issued
      rw [hregistry]
      refine weight_mono fun id p hp => ?_
      obtain ⟨t, t', ht, ht', hsupply, -⟩ := htokens id p hp
      rw [supplyAt_of_some ht, supplyAt_of_some ht']
      unfold claim
      split_ifs with hclaim
      · exact hsupply hclaim.1
      · exact Nat.le_refl _
    exact (hless.trans (h.backed.escrow d)).trans (hharmless.escrow d)
  · intro id p hp howner
    rw [hregistry] at hp
    obtain ⟨_, _, ht, ht', -, hkept⟩ := htokens id p hp
    have hheld := h.backed.custody id p hp howner
    have hsupply := hharmless.supply p.erc20Address
    rw [heldBy_of_some ht, h.shape.external id p hp howner] at hheld
    rw [heldBy_of_some ht', h.shape.external id p hp howner]
    exact ((Nat.add_le_add_right hsupply 0).trans hheld).trans hkept

/-- What is assumed of a step: nobody else spends from the module account, and tokens are
standard. -/
def Standard (env : Env) (s : State) : Label → Prop
  | .convertCoin msg => msg.sender ≠ env.moduleAddress
  | .recvPacket p => ∀ denom escrow, p.coin = .returning denom escrow → escrow ≠ env.moduleAddress
  | .refundPacket p => ∀ denom escrow, p.coin = .returning denom escrow → escrow ≠ env.moduleAddress
  | .ibcTransfer msg => msg.sender ≠ env.moduleAddress
  | .ethereumTx effects => ∀ e ∈ effects, e.Standard env s
  | .outside _ bank tokens => Harmless env s bank tokens
  | _ => True

/-- The pair found for a coin that is converted is a pair of that coin, and no transaction calls the
ICS-20 precompile. -/
def Matched (s : State) : Label → Prop
  | .convertCoin msg => s.Matches msg.denom
  | .recvPacket p => s.Matches p.coin.denom
  | .refundPacket p => s.Matches p.coin.denom
  | .ethereumTx effects => ∀ e ∈ effects, e.Own
  | _ => True

theorem step_solvent (henv : env.Lawful) (hguard : env.Guarded) (h : Solvent env s) {l : Label}
    (hstd : Standard env s l) (hmatched : Matched s l) (hstep : step env s l = some s') :
    Solvent env s' := by
  cases l with
  | proposal => exact executeProposal_solvent henv h (toOption_eq_some.mp hstep)
  | convertCoin => exact convertCoin_solvent hguard h hmatched hstd (toOption_eq_some.mp hstep)
  | convertERC20 => exact convertERC20_solvent henv h (toOption_eq_some.mp hstep)
  | recvPacket => exact packet_solvent hguard h hstd hmatched (.inl (toOption_eq_some.mp hstep))
  | refundPacket => exact packet_solvent hguard h hstd hmatched (.inr (toOption_eq_some.mp hstep))
  | ibcTransfer => exact ibcTransfer_solvent henv h hstd (toOption_eq_some.mp hstep)
  | ethereumTx => exact ethereumTx_solvent henv hguard h hstd hmatched hstep
  | outside =>
    cases hstep
    exact Harmless.solvent h rfl hstd

theorem solvent_of_empty (hregistry : s.registry = .empty)
    (hsupply : ∀ a, s.bank.supply (createDenom (env.addressString a)) = 0) : Solvent env s := by
  have hnone : ∀ (id : Key) (p : TokenPair), s.registry.pairs[id]? ≠ some p := by
    intro id p hp
    simp [hregistry, empty] at hp
  refine ⟨⟨?_, fun id p hp => absurd hp (hnone id p), fun id p hp => absurd hp (hnone id p),
    fun a _ => hsupply a⟩, ?_, fun id p hp => absurd hp (hnone id p)⟩
  · rw [hregistry]
    exact .empty
  intro _
  rw [State.issued, hregistry, empty, weight_empty]
  exact Nat.zero_le _

end

/-- Whether other modules are harmless is not decided; everything else is. -/
noncomputable instance (env : Env) (s : State) (l : Label) : Decidable (Standard env s l) := by
  unfold Standard
  split <;> first | infer_instance | exact Classical.dec _

instance (s : State) (l : Label) : Decidable (Matched s l) := by
  unfold Matched
  split <;> infer_instance

theorem smallEnv_guarded : smallEnv.Guarded := ⟨by decide, by decide⟩

theorem smallGenesis_supply (a : Address) :
    smallGenesis.bank.supply (createDenom (smallEnv.addressString a)) = 0 := by
  have hne : ∀ d : Text, d.head? ≠ some 101 → createDenom (smallEnv.addressString a) ≠ d := by
    rintro _ hd rfl
    exact hd rfl
  unfold smallGenesis
  dsimp only
  refine if_neg ?_
  rintro (h | h)
  · exact hne _ (by decide) h
  · exact hne _ (by decide) h

/-- The chain with addresses in hexadecimal, and with tokens of others. -/
def outsideEnv : Env :=
  { smallEnv with
    addressString := fun a => Hex.toHex (fun _ => false) a.bytes
    query := fun _ _ => some ⟨ascii "Token", ascii "TOK", 18⟩ }

/-- One account holds a hundred tokens of a contract. -/
def tokenGenesis : State :=
  { smallGenesis with
    tokens := fun a =>
      if a = contract₁ then some ⟨fun a => if a = .ofNat 1 then 100 else 0, 100⟩ else none }

theorem nestedTransfer_not_backed :
    ∃ t, Path (step outsideEnv) (Standard outsideEnv) tokenGenesis t ∧
      t.bank.supply (createDenom (outsideEnv.addressString contract₁)) = 97 ∧
      t.heldBy outsideEnv.moduleAddress contract₁ = 7 :=
  let toModule : Effect := .token (.transfer contract₁ (.ofNat 1) outsideEnv.moduleAddress 1)
  exists_path tokenGenesis
    [.proposal (.registerERC20 [contract₁]),
      .convertERC20 ⟨outsideEnv.addressString contract₁, 5, .ofNat 1, .ofNat 1⟩,
      .ethereumTx [toModule, .transferICS20 ⟨.ofNat 1,
        createDenom (outsideEnv.addressString contract₁), 95, some (.ofNat 50)⟩, toModule]]
    (by decide +kernel)

end HyperPax.Erc20
