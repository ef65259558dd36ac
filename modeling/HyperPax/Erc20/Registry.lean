/-
  Erc20/Registry.lean --- when the registry of token pairs is a bijection.

  `RegisterCoin` looks for the name of a coin in the index of denominations, but registers the
  base denomination.  A coin whose name is not its base denomination passes the check a second
  time.  Both pairs are then stored, and the index leads to the second one only.

  What every step keeps, even so, is `Sound`: pairs stand under their ids, the index of
  contracts is exact, and the index of denominations leads to pairs with that denomination.
-/
import HyperPax.Erc20.Specs
import HyperPax.Lib.Transition
import HyperPax.Lib.UniqueIndex

set_option autoImplicit false

namespace HyperPax.Erc20

open Lib KVStore Registry List TokenPair

/-- What the module relies on: SHA-256 does not make two pairs collide, and a deployed contract has
a new address (it is a hash of a counter that grows). -/
structure Env.Lawful (env : Env) : Prop where
  getID_injective : ∀ p q : TokenPair, p.getID env = q.getID env →
    p.erc20Address = q.erc20Address ∧ p.denom = q.denom
  deploy_fresh : ∀ s metadata contract, env.deploy s metadata = some contract →
    s.registry.isERC20Registered contract = false

/-! ## The registry -/

/-- The key of a pair in the index of contracts. -/
def TokenPair.contractKey (pair : TokenPair) : Key := pair.erc20Address.bytes

namespace Registry

def empty : Registry := ⟨∅, ∅, ∅⟩

/-- What every step keeps. -/
structure Sound (env : Env) (r : Registry) : Prop where
  stored : ∀ (id : Key) (p : TokenPair), r.pairs[id]? = some p → id = p.getID env
  contracts : Exact r.pairs r.byERC20 contractKey
  denoms : Linked r.pairs r.byDenom denom

/-- A denomination and a contract belong to at most one pair, and both indexes hold exactly those of
the stored pairs, with the ids of the pairs. -/
structure Bijective (env : Env) (r : Registry) : Prop where
  denom_unique : ∀ (id id' : Key) (p q : TokenPair), r.pairs[id]? = some p →
    r.pairs[id']? = some q → p.denom = q.denom → id = id' ∧ p = q
  contract_unique : ∀ (id id' : Key) (p q : TokenPair), r.pairs[id]? = some p →
    r.pairs[id']? = some q → p.erc20Address = q.erc20Address → id = id' ∧ p = q
  byDenom_iff : ∀ (denom : Text) (id : Key), r.byDenom[denom]? = some id ↔
    ∃ p : TokenPair, r.pairs[id]? = some p ∧ p.denom = denom ∧ id = p.getID env
  byERC20_iff : ∀ (contract id : Key), r.byERC20[contract]? = some id ↔
    ∃ p : TokenPair, r.pairs[id]? = some p ∧ p.erc20Address.bytes = contract ∧ id = p.getID env

/-- Two stored pairs share a denomination. -/
def Duplicate (r : Registry) : Prop :=
  ∃ (id id' : Key) (p q : TokenPair), id ≠ id' ∧ r.pairs[id]? = some p ∧
    r.pairs[id']? = some q ∧ p.denom = q.denom

variable {env : Env} {r : Registry}

theorem eq_of_get {id id' : Key} {p q : TokenPair} (hp : r.pairs[id]? = some p)
    (hq : r.pairs[id']? = some q) (h : id = id') : p = q := by
  subst h
  exact Option.some.inj (hp.symm.trans hq)

theorem bijective_of_exact (h : r.Sound env) (hdenoms : Exact r.pairs r.byDenom denom) :
    r.Bijective env := by
  refine ⟨?_, ?_, ?_, ?_⟩
  · intro id id' p q hp hq hdenom
    have hid := hdenoms.unique hp hq hdenom
    exact ⟨hid, eq_of_get hp hq hid⟩
  · intro id _ p _ hp hq hcontr
    have hid := h.contracts.unique hp hq (congrArg Address.bytes hcontr)
    exact ⟨hid, eq_of_get hp hq hid⟩
  · intro denom id
    rw [hdenoms denom id]
    exact exists_congr fun p =>
      ⟨fun hp => ⟨hp.1, hp.2, h.stored id p hp.1⟩, fun hp => ⟨hp.1, hp.2.1⟩⟩
  intro contract id
  rw [h.contracts contract id]
  exact exists_congr fun p =>
    ⟨fun hp => ⟨hp.1, hp.2, h.stored id p hp.1⟩, fun hp => ⟨hp.1, hp.2.1⟩⟩

theorem Bijective.exact (h : r.Bijective env) (hsound : r.Sound env) :
    Exact r.pairs r.byDenom denom := by
  intro denom id
  rw [h.byDenom_iff denom id]
  exact exists_congr fun p =>
    ⟨fun hp => ⟨hp.1, hp.2.1⟩, fun hp => ⟨hp.1, hp.2, hsound.stored id p hp.1⟩⟩

theorem Bijective.not_duplicate (h : r.Bijective env) : ¬ r.Duplicate := by
  rintro ⟨id, id', p, q, hne, hp, hq, hdenom⟩
  exact hne (h.denom_unique id id' p q hp hq hdenom).1

/-! ## What the writes keep -/

variable {pair : TokenPair} {id : Key} {enabled : Bool}

theorem isERC20Registered_eq_false :
    r.isERC20Registered pair.erc20Address = false ↔ r.byERC20[pair.contractKey]? = none := by
  unfold isERC20Registered contractKey
  cases r.byERC20[pair.erc20Address.bytes]? <;> simp

theorem isDenomRegistered_eq_false {denom : Text} :
    r.isDenomRegistered denom = false ↔ r.byDenom[denom]? = none := by
  unfold isDenomRegistered
  cases r.byDenom[denom]? <;> simp

theorem Sound.empty : empty.Sound env :=
  ⟨fun id p h => by simp [Registry.empty] at h, .empty, .empty⟩

theorem Sound.id_none (henv : env.Lawful) (h : r.Sound env)
    (hcontr : r.byERC20[pair.contractKey]? = none) : r.pairs[pair.getID env]? = none := by
  cases hget : r.pairs[pair.getID env]? with
  | none => rfl
  | some q =>
    obtain ⟨hsame, -⟩ := henv.getID_injective pair q (h.stored _ q hget)
    have hentry := h.contracts.get hget
    rw [contractKey, ← hsame] at hentry
    rw [contractKey, hentry] at hcontr
    cases hcontr

theorem stored_insert (h : ∀ (id : Key) (p : TokenPair), r.pairs[id]? = some p → id = p.getID env) :
    ∀ (id : Key) (p : TokenPair), (r.pairs.insert (pair.getID env) pair)[id]? = some p →
      id = p.getID env := by
  intro id p hp
  rw [get_insert] at hp
  split at hp
  · rename_i hid
    cases hp
    exact hid.symm
  · exact h id p hp

theorem Sound.register (henv : env.Lawful) (h : r.Sound env)
    (hcontr : r.byERC20[pair.contractKey]? = none) : (r.register env pair).Sound env where
  stored := stored_insert h.stored
  contracts := h.contracts.insert (h.id_none henv hcontr) hcontr
  denoms := h.denoms.insert (h.id_none henv hcontr) pair

section

variable (h : r.Sound env) (hget : r.pairs[id]? = some pair)

include h hget

theorem Sound.setTokenPair :
    (r.setTokenPair env { pair with enabled }).Sound env where
  stored := stored_insert h.stored
  contracts := by
    obtain rfl := h.stored id pair hget
    exact h.contracts.replace hget rfl
  denoms := by
    obtain rfl := h.stored id pair hget
    exact h.denoms.replace hget rfl

theorem Sound.deleteTokenPair : (r.deleteTokenPair env pair).Sound env := by
  obtain rfl := h.stored id pair hget
  refine ⟨?_, h.contracts.erase hget, h.denoms.erase hget⟩
  intro id p hp
  rw [Registry.deleteTokenPair, get_erase] at hp
  split at hp
  · cases hp
  · exact h.stored id p hp

end

section

variable (henv : env.Lawful)

include henv

section

variable (h : r.Sound env) (hcontr : r.byERC20[pair.contractKey]? = none)

include h hcontr

theorem get_register {p : TokenPair} (hp : r.pairs[id]? = some p) :
    (r.register env pair).pairs[id]? = some p := by
  have hne : pair.getID env ≠ id := by
    rintro rfl
    rw [h.id_none henv hcontr] at hp
    cases hp
  exact (get_insert_of_ne _ _ hne).trans hp

theorem Duplicate.register (hdup : r.Duplicate) : (r.register env pair).Duplicate := by
  obtain ⟨id, id', p, q, hne, hp, hq, hdenom⟩ := hdup
  exact ⟨id, id', p, q, hne, get_register henv h hcontr hp, get_register henv h hcontr hq, hdenom⟩

theorem duplicate_register (hdenom : r.byDenom[pair.denom]? = some id) :
    (r.register env pair).Duplicate := by
  obtain ⟨p, hp, hsame⟩ := h.denoms _ id hdenom
  have hnew : (r.register env pair).pairs[pair.getID env]? = some pair :=
    (get_insert _ _ _ _).trans (if_pos rfl)
  refine ⟨id, pair.getID env, p, pair, ?_, get_register henv h hcontr hp, hnew, hsame⟩
  rintro rfl
  rw [h.id_none henv hcontr] at hp
  cases hp

end

theorem Bijective.register (hsound : r.Sound env) (h : r.Bijective env)
    (hcontr : r.byERC20[pair.contractKey]? = none) (hdenom : r.byDenom[pair.denom]? = none) :
    (r.register env pair).Bijective env :=
  bijective_of_exact (hsound.register henv hcontr)
    ((h.exact hsound).insert (hsound.id_none henv hcontr) hdenom)

end

section

variable (hsound : r.Sound env) (h : r.Bijective env) (hget : r.pairs[id]? = some pair)

include hsound h hget

theorem Bijective.setTokenPair : (r.setTokenPair env { pair with enabled }).Bijective env := by
  refine bijective_of_exact (hsound.setTokenPair hget) ?_
  obtain rfl := hsound.stored id pair hget
  exact (h.exact hsound).replace hget rfl

theorem Bijective.deleteTokenPair : (r.deleteTokenPair env pair).Bijective env := by
  refine bijective_of_exact (hsound.deleteTokenPair hget) ?_
  obtain rfl := hsound.stored id pair hget
  exact (h.exact hsound).erase hget

end

/-! ## Conversions -/

/-- Steps that register nothing: the registry stays, or loses pairs. -/
inductive Dwindles (env : Env) (r : Registry) : Registry → Prop where
  | refl : Dwindles env r r
  | delete {r' : Registry} {id : Key} {p : TokenPair} : Dwindles env r r' →
      r'.pairs[id]? = some p → Dwindles env r (r'.deleteTokenPair env p)

variable {r' r'' : Registry}

theorem Dwindles.trans (h : r.Dwindles env r') (h' : r'.Dwindles env r'') : r.Dwindles env r'' := by
  induction h' with
  | refl => exact h
  | delete _ hget ih => exact .delete ih hget

theorem Sound.dwindles (h : r.Sound env) (hr : r.Dwindles env r') : r'.Sound env := by
  induction hr with
  | refl => exact h
  | delete _ hget ih => exact ih.deleteTokenPair hget

theorem Bijective.dwindles (hsound : r.Sound env) (h : r.Bijective env) (hr : r.Dwindles env r') :
    r'.Bijective env := by
  induction hr with
  | refl => exact h
  | delete hr hget ih => exact ih.deleteTokenPair (hsound.dwindles hr) hget

end Registry

section

variable {env : Env} {s s' : State} {metadata : List Metadata}

theorem convertCoin_registry {msg : MsgConvertCoin} (h : convertCoin env s msg = .ok s') :
    s.registry.Dwindles env s'.registry := by
  obtain ⟨pair, id, -, hget, -, ⟨-, rfl⟩ | ⟨-, h⟩ | ⟨-, h⟩⟩ := convertCoin_ok h
  · exact .delete .refl hget
  · obtain ⟨t, t', -, -, -, rfl⟩ := convertCoinNativeCoin_ok h
    exact .refl
  · obtain ⟨_, _, -, -, -, -, rfl⟩ := convertCoinNativeERC20_ok h
    exact .refl

theorem convertERC20_registry {msg : MsgConvertERC20} (h : convertERC20 env s msg = .ok s') :
    s.registry.Dwindles env s'.registry := by
  obtain ⟨pair, id, -, hget, ⟨-, rfl⟩ | ⟨-, h⟩ | ⟨-, h⟩⟩ := convertERC20_ok h
  · exact .delete .refl hget
  · obtain ⟨t, t', -, -, -, rfl⟩ := convertERC20NativeCoin_ok h
    exact .refl
  · obtain ⟨_, _, -, -, -, rfl⟩ := convertERC20NativeToken_ok h
    exact .refl

theorem packet_registry {p : Packet}
    (h : recvPacket env s p = .ok s' ∨ refundPacket env s p = .ok s') :
    s.registry.Dwindles env s'.registry := by
  obtain ⟨s₁, _, hcredit, h⟩ := packet_ok h
  have hsame : s₁.registry = s.registry := by
    obtain ⟨-, ⟨-, -, rfl⟩ | ⟨-, -, -, -, rfl⟩⟩ := creditCoin_ok hcredit <;> rfl
  rw [← hsame]
  obtain rfl | ⟨_, h⟩ := h
  · exact .refl
  · exact convertCoin_registry h

theorem ibcTransfer_registry {msg : MsgTransfer} (h : ibcTransfer env s msg = .ok s') :
    s.registry.Dwindles env s'.registry := by
  obtain ⟨s₁, _, hdebit, hconv⟩ := ibcTransfer_ok h
  have hsame : s'.registry = s₁.registry := by
    obtain ⟨-, ⟨_, rfl⟩ | rfl⟩ := debitCoin_ok hdebit <;> rfl
  rw [hsame]
  obtain rfl | ⟨_, _, hconv⟩ := hconv
  · exact .refl
  · exact convertERC20_registry hconv

theorem runEffects_registry {effects : List Effect} {b : Body} {r : Body × List Log}
    (h : runEffects env b effects = some r) :
    b.view.registry.Dwindles env r.1.view.registry := by
  induction effects generalizing b r with
  | nil =>
    cases h
    exact .refl
  | cons e _ ih =>
    obtain ⟨_, hone, h⟩ := Option.bind_eq_some_iff.mp h
    obtain ⟨_, hrest, rfl⟩ := Option.map_eq_some_iff.mp h
    have hlater := ih hrest
    refine .trans ?_ hlater
    cases e with
    | token =>
      obtain ⟨_, hrun, rfl⟩ := Option.map_eq_some_iff.mp hone
      dsimp only
      rw [effect_registry hrun]
      exact .refl
    | transferICS20 =>
      obtain ⟨_, hrun, rfl⟩ := Option.map_eq_some_iff.mp hone
      have hsame := ibcTransfer_registry (toOption_eq_some.mp hrun)
      exact hsame

theorem ethereumTx_registry {effects : List Effect} (h : ethereumTx env s effects = some s') :
    s.registry.Dwindles env s'.registry := by
  obtain ⟨_, hrun, rfl⟩ := Option.map_eq_some_iff.mp h
  rw [postTxProcessing_registry]
  exact runEffects_registry hrun

/-! ## Proposals -/

/-- The coins are new: none is registered, and none comes twice. -/
def NewCoins (r : Registry) (metadata : List Metadata) : Prop :=
  (metadata.map Metadata.base).Nodup ∧ ∀ m ∈ metadata, r.byDenom[m.base]? = none
deriving Decidable

theorem registerCoin_registry (henv : env.Lawful) {metadata : Metadata}
    (h : registerCoin env s metadata = .ok s') : ∃ pair : TokenPair, pair.denom = metadata.base ∧
      s.registry.byERC20[pair.contractKey]? = none ∧
      s'.registry = s.registry.register env pair := by
  obtain ⟨s₁, contract, hverify, hdeploy, rfl⟩ := registerCoin_ok h
  refine ⟨newTokenPair contract metadata.base .ownerModule, rfl, ?_, rfl⟩
  have hfresh := henv.deploy_fresh s₁ metadata contract hdeploy
  have hsame : s₁.registry = s.registry := by obtain rfl | rfl := verifyMetadata_ok hverify <;> rfl
  rw [hsame] at hfresh
  exact isERC20Registered_eq_false.mp hfresh

theorem registerERC20_registry {contract : Address} (h : registerERC20 env s contract = .ok s') :
    ∃ pair : TokenPair, s.registry.byERC20[pair.contractKey]? = none ∧
      s.registry.byDenom[pair.denom]? = none ∧ s'.registry = s.registry.register env pair := by
  obtain ⟨_, -, -, -, hcontr, hdenom, rfl⟩ := registerERC20_ok h
  refine ⟨newTokenPair contract (createDenom (env.addressString contract)) .ownerExternal, ?_, ?_,
    rfl⟩
  · exact isERC20Registered_eq_false.mp hcontr
  · exact isDenomRegistered_eq_false.mp hdenom

section

variable (henv : env.Lawful) (hsound : s.registry.Sound env)

include henv hsound

theorem registerCoins_duplicate (hdup : s.registry.Duplicate)
    (h : metadata.foldlM (registerCoin env) s = .ok s') : s'.registry.Duplicate := by
  refine (foldlM_invariant (I := fun _ t => t.registry.Sound env ∧ t.registry.Duplicate) h
    ⟨hsound, hdup⟩ ?_).2
  rintro - _ - _ _ - ⟨hsound, hdup⟩ hone
  obtain ⟨_, -, hcontr, hreg⟩ := registerCoin_registry henv hone
  rw [hreg]
  exact ⟨hsound.register henv hcontr, hdup.register henv hsound hcontr⟩

theorem registerCoins_bijective_iff (hbij : s.registry.Bijective env)
    (h : metadata.foldlM (registerCoin env) s = .ok s') :
    s'.registry.Bijective env ↔ NewCoins s.registry metadata := by
  induction metadata generalizing s with
  | nil =>
    cases h
    exact iff_of_true hbij ⟨nodup_nil, fun m hm => absurd hm not_mem_nil⟩
  | cons m _ ih =>
    rw [foldlM_cons] at h
    obtain ⟨s₁, hone, hrest⟩ := bind_ok.mp h
    obtain ⟨_, hdenom, hcontr, hreg⟩ := registerCoin_registry henv hone
    have hsound₁ : s₁.registry.Sound env := hreg ▸ hsound.register henv hcontr
    cases hbase : s.registry.byDenom[m.base]? with
    | some =>
      -- the coin is registered: its second pair stays to the end
      have hdup : s₁.registry.Duplicate := by
        rw [hreg]
        exact duplicate_register henv hsound hcontr (hdenom ▸ hbase)
      refine iff_of_false (fun hend => ?_) (fun hnew => ?_)
      · exact hend.not_duplicate (registerCoins_duplicate henv hsound₁ hdup hrest)
      · rw [hnew.2 m mem_cons_self] at hbase
        cases hbase
    | none =>
      have hbij₁ : s₁.registry.Bijective env := by
        rw [hreg]
        exact hbij.register henv hsound hcontr (hdenom ▸ hbase)
      rw [ih hsound₁ hbij₁ hrest]
      have hindex : ∀ d : Text, s₁.registry.byDenom[d]? = none ↔
          d ≠ m.base ∧ s.registry.byDenom[d]? = none := by
        intro d
        rw [hreg, register, setERC20Map, setDenomMap, get_insert, hdenom]
        by_cases hd : m.base = d
        · simp [hd]
        · simp [hd, Ne.symm hd, setTokenPair]
      simp only [NewCoins, map_cons, nodup_cons, mem_map, not_exists, not_and,
        hindex, forall_mem_cons, hbase, true_and]
      constructor
      · rintro ⟨hnodup, hnew⟩
        exact ⟨⟨fun m' hm' => (hnew m' hm').1, hnodup⟩, fun m' hm' => (hnew m' hm').2⟩
      · rintro ⟨⟨hne, hnodup⟩, hnew⟩
        exact ⟨hnodup, fun m' hm' => ⟨hne m' hm', hnew m' hm'⟩⟩

theorem registerCoins_sound (h : metadata.foldlM (registerCoin env) s = .ok s') :
    s'.registry.Sound env := by
  refine foldlM_invariant (I := fun _ t => t.registry.Sound env) h hsound ?_
  rintro - _ - _ _ - hsound hone
  obtain ⟨_, -, hcontr, hreg⟩ := registerCoin_registry henv hone
  exact hreg ▸ hsound.register henv hcontr

variable {contracts : List Address}

theorem registerERC20s_sound (h : contracts.foldlM (registerERC20 env) s = .ok s') :
    s'.registry.Sound env := by
  refine foldlM_invariant (I := fun _ t => t.registry.Sound env) h hsound ?_
  rintro - _ - _ _ - hsound hone
  obtain ⟨_, hcontr, -, hreg⟩ := registerERC20_registry hone
  exact hreg ▸ hsound.register henv hcontr

theorem registerERC20s_bijective (hbij : s.registry.Bijective env)
    (h : contracts.foldlM (registerERC20 env) s = .ok s') : s'.registry.Bijective env := by
  refine (foldlM_invariant (I := fun _ t => t.registry.Sound env ∧ t.registry.Bijective env) h
    ⟨hsound, hbij⟩ ?_).2
  rintro - _ - _ _ - ⟨hsound, hbij⟩ hone
  obtain ⟨_, hcontr, hdenom, hreg⟩ := registerERC20_registry hone
  rw [hreg]
  exact ⟨hsound.register henv hcontr, hbij.register henv hsound hcontr hdenom⟩

end

/-! ## Runs -/

/-- A proposal to register coins registers new coins only. -/
def Fresh (s : State) : Label → Prop
  | .proposal (.registerCoin metadata) => NewCoins s.registry metadata
  | _ => True

instance (s : State) (l : Label) : Decidable (Fresh s l) := by
  unfold Fresh
  split <;> infer_instance

variable {l : Label}

theorem step_registry (h : step env s l = some s') :
    (∃ p, l = .proposal p ∧ handleProposal env s p = .ok s') ∨
      (s.registry.Dwindles env s'.registry ∧ Fresh s l) := by
  cases l with
  | proposal p =>
    obtain ⟨-, -, h⟩ := bind_ok.mp (toOption_eq_some.mp h)
    exact .inl ⟨p, rfl, h⟩
  | convertCoin => exact .inr ⟨convertCoin_registry (toOption_eq_some.mp h), trivial⟩
  | convertERC20 => exact .inr ⟨convertERC20_registry (toOption_eq_some.mp h), trivial⟩
  | recvPacket => exact .inr ⟨packet_registry (.inl (toOption_eq_some.mp h)), trivial⟩
  | refundPacket => exact .inr ⟨packet_registry (.inr (toOption_eq_some.mp h)), trivial⟩
  | ibcTransfer => exact .inr ⟨ibcTransfer_registry (toOption_eq_some.mp h), trivial⟩
  | ethereumTx => exact .inr ⟨ethereumTx_registry h, trivial⟩
  | outside =>
    cases h
    exact .inr ⟨.refl, trivial⟩

variable (henv : env.Lawful) (hsound : s.registry.Sound env)

include henv hsound

theorem step_sound (h : step env s l = some s') : s'.registry.Sound env := by
  obtain ⟨p, rfl, hhandle⟩ | ⟨hr, _⟩ := step_registry h
  · obtain ⟨-, hhandle⟩ := require_bind_ok.mp hhandle
    cases p with
    | registerCoin => exact registerCoins_sound henv hsound hhandle
    | registerERC20 => exact registerERC20s_sound henv hsound hhandle
    | toggleTokenConversion =>
      obtain ⟨_, _, hget, rfl⟩ := toggleConversion_ok hhandle
      exact hsound.setTokenPair hget
  · exact hsound.dwindles hr

theorem step_bijective_iff (hbij : s.registry.Bijective env) (h : step env s l = some s') :
    s'.registry.Bijective env ↔ Fresh s l := by
  obtain ⟨p, rfl, hhandle⟩ | ⟨hr, hfresh⟩ := step_registry h
  · obtain ⟨-, hhandle⟩ := require_bind_ok.mp hhandle
    cases p with
    | registerCoin => exact registerCoins_bijective_iff henv hsound hbij hhandle
    | registerERC20 => exact iff_of_true (registerERC20s_bijective henv hsound hbij hhandle) trivial
    | toggleTokenConversion =>
      obtain ⟨_, _, hget, rfl⟩ := toggleConversion_ok hhandle
      exact iff_of_true (hbij.setTokenPair hsound hget) trivial
  · exact iff_of_true (hbij.dwindles hsound hr) hfresh

end

/-- From an empty registry, in every run whose proposals register new coins only, the registry is a
bijection in every state reached; and a further step keeps it one exactly if its coins are
new. -/
theorem registry_bijective_iff (env : Env) (henv : env.Lawful) (s₀ t : State)
    (h₀ : s₀.registry = .empty) (hrun : Path (step env) Fresh s₀ t) : t.registry.Bijective env ∧
      ∀ l u, step env t l = some u → (u.registry.Bijective env ↔ Fresh t l) := by
  have hinv : t.registry.Sound env ∧ t.registry.Bijective env := by
    refine Path.invariant (I := fun t => t.registry.Sound env ∧ t.registry.Bijective env) ?_ ?_ hrun
    · rintro _ l u ⟨hsound, hbij⟩ hfresh hstep
      exact ⟨step_sound henv hsound hstep, (step_bijective_iff henv hsound hbij hstep).mpr hfresh⟩
    · rw [h₀]
      exact ⟨.empty, bijective_of_exact .empty .empty⟩
  exact ⟨hinv.2, fun l u hstep =>
    step_bijective_iff henv hinv.1 hinv.2 hstep⟩

/-! ## A coin registered twice -/

/-- Where the first contract is deployed. -/
def contract₁ : Address := .ofNat 0xcafecafecafecafecafecafecafecafecafecafe

/-- The same digits as the denomination of a coin. -/
def hexDenom : Text := ascii "cafecafecafecafecafecafecafecafecafecafe"

/-- A chain whose addresses are their own text and that deploys at two addresses. -/
def smallEnv : Env where
  moduleAddress := .ofNat 100
  addressString := Address.bytes
  sum := id
  metadataValid _ := true
  validIBCDenom _ := true
  deploy s _ := [contract₁, .ofNat 8].find? fun a => !s.registry.isERC20Registered a
  query _ _ := none
  blockedAddr a := a = .ofNat 100
  sendEnabled _ := true
  refuses _ _ _ _ _ := false
  callFails _ _ := false
  approvalEvent _ _ := false
  transferID := .replicate 32 0xdd
  isModuleAccount _ := false
  bondDenom := ascii "apax"

theorem smallEnv_lawful : smallEnv.Lawful where
  getID_injective p q h := by
    have happend : p.erc20Address.bytes ++ ascii "|" ++ p.denom =
        q.erc20Address.bytes ++ ascii "|" ++ q.denom := h
    rw [append_assoc, append_assoc] at happend
    obtain ⟨hcontr, hrest⟩ := append_inj happend
      (p.erc20Address.length_bytes.trans q.erc20Address.length_bytes.symm)
    exact ⟨Address.ext hcontr, append_cancel_left hrest⟩
  deploy_fresh s metadata contract h := by
    have hfound := List.find?_some h
    simpa using hfound

/-- A coin with a name of its own. -/
def namedCoin : Metadata where
  description := ascii "a coin"
  denomUnits := [⟨ascii "acoin", 0, []⟩, ⟨ascii "coin", 18, []⟩]
  base := ascii "acoin"
  display := ascii "coin"
  name := ascii "Coin"
  symbol := ascii "COIN"

/-- One account holds two kinds of coins; nothing is registered. -/
def smallGenesis : State where
  params := ⟨true, true⟩
  registry := .empty
  bank := ⟨fun a d => if a = .ofNat 1 ∧ (d = ascii "acoin" ∨ d = hexDenom) then 1000 else 0,
    fun d => if d = ascii "acoin" ∨ d = hexDenom then 1000 else 0, fun _ => none⟩
  tokens _ := none

/-- Two coins are registered, the contract of one of them goes, and the next conversion deletes its
pair. -/
theorem namedCoin_bijective : ∃ t, Path (step smallEnv) Fresh smallGenesis t ∧
      t.registry.byDenom[ascii "acoin"]? = none ∧ t.registry.byDenom[hexDenom]? ≠ none ∧
      t.registry.Bijective smallEnv := by
  have hreach : ∃ t, Path (step smallEnv) Fresh smallGenesis t ∧
      t.registry.byDenom[ascii "acoin"]? = none ∧ t.registry.byDenom[hexDenom]? ≠ none :=
    exists_path smallGenesis
      [.proposal (.registerCoin [namedCoin, { namedCoin with base := hexDenom }]),
        .outside smallGenesis.params smallGenesis.bank smallGenesis.tokens,
        .convertCoin ⟨ascii "acoin", 10, .ofNat 1, .ofNat 1⟩] (by decide +kernel)
  obtain ⟨t, hrun, hdeleted, hregistered⟩ := hreach
  exact ⟨t, hrun, hdeleted, hregistered,
    (registry_bijective_iff smallEnv smallEnv_lawful smallGenesis t rfl hrun).1⟩

/-- Two proposals to register the same coin pass: there are two pairs of it. -/
theorem namedCoin_registered_twice : ∃ t, Path (step smallEnv) (fun _ _ => True) smallGenesis t ∧
      ¬ t.registry.Bijective smallEnv := by
  let pair (a : Address) : TokenPair := newTokenPair a (ascii "acoin") .ownerModule
  have hreach : ∃ t, Path (step smallEnv) (fun _ _ => True) smallGenesis t ∧
      t.registry.pairs[(pair contract₁).getID smallEnv]? = some (pair contract₁) ∧
      t.registry.pairs[(pair (.ofNat 8)).getID smallEnv]? = some (pair (.ofNat 8)) :=
    exists_path smallGenesis
      [.proposal (.registerCoin [namedCoin]), .proposal (.registerCoin [namedCoin])]
      (by decide +kernel)
  obtain ⟨t, hrun, h₁, h₂⟩ := hreach
  refine ⟨t, hrun, fun hbij => hbij.not_duplicate ?_⟩
  exact ⟨_, _, pair contract₁, pair (.ofNat 8), by decide, h₁, h₂, rfl⟩

end HyperPax.Erc20
