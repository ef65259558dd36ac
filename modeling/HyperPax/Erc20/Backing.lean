/-
  Erc20/Backing.lean --- tokens are backed by escrowed coins, and coins by escrowed tokens.

  The module account is one pool for all pairs.  What the steps keep is a bound on the pool:
  for each denomination, the coins in escrow are at least the SUM of the total supplies of the
  module's tokens of that denomination.  A receipt is processed after the whole transaction, so
  tokens that have arrived and are not converted yet are a credit that the bound carries along.

  One look-up breaks the bound.  `GetTokenPairID` takes a denomination of forty hexadecimal
  digits for the address of a contract.  `ConvertCoin` of such a coin escrows the coin and mints
  the token of another pair.
-/
import HyperPax.Erc20.Registry

set_option autoImplicit false

namespace HyperPax.Erc20

open Lib State Function Ledger Bank TokenPair

/-! ## Coins and tokens -/

namespace Bank

variable (b : Bank) (src dst a : Address) (denom d : Text) (n : Nat)

theorem le_move {src a : Address} (h : a ≠ src) :
    b.balances a d ≤ (b.move src dst denom n).balances a d := by
  simp only [move, transfer_apply, if_neg h]
  split_ifs with hd
  · subst hd
    exact Nat.le_add_right _ _
  · subst hd
    exact Nat.le_refl _
  · exact Nat.le_refl _

theorem balances_move_dst {src dst : Address} (h : src ≠ dst) :
    (b.move src dst denom n).balances dst d = b.balances dst d + if d = denom then n else 0 := by
  simp only [move]
  split_ifs with hd
  · subst hd
    exact transfer_dst _ n h
  · rfl

theorem le_move_add :
    b.balances a d ≤ (b.move src dst denom n).balances a d + if d = denom then n else 0 := by
  simp only [move]
  split_ifs with hd
  · subst hd
    exact le_transfer_add (fun a => b.balances a d) src dst a n
  · exact Nat.le_refl _

theorem balances_create : (b.create dst denom n).balances a d =
      b.balances a d + if a = dst ∧ d = denom then n else 0 := by
  simp only [create]
  split_ifs <;> rfl

theorem supply_create : (b.create dst denom n).supply d =
    b.supply d + if d = denom then n else 0 := by
  simp only [create, update_apply]
  split_ifs with hd
  · rw [hd]
  · rfl

theorem balances_destroy : (b.destroy src denom n).balances a d =
      b.balances a d - if a = src ∧ d = denom then n else 0 := by
  simp only [destroy]
  split_ifs <;> rfl

theorem supply_destroy : (b.destroy src denom n).supply d =
    b.supply d - if d = denom then n else 0 := by
  simp only [destroy, update_apply]
  split_ifs with hd
  · rw [hd]
  · rfl

end Bank

namespace Token

variable {t t' : Token} {src dst a : Address} {n : Nat}

theorem mint_some (h : t.mint dst n = some t') : t'.totalSupply = t.totalSupply + n ∧
      t'.balances a = t.balances a + if a = dst then n else 0 := by
  unfold mint at h
  split at h
  · cases h
    refine ⟨rfl, ?_⟩
    simp only [update_apply]
    split_ifs with ha
    · rw [ha]
    · rfl
  · cases h

theorem burn_some (h : t.burn src n = some t') :
    t'.totalSupply + n = t.totalSupply ∧ (a ≠ src → t'.balances a = t.balances a) := by
  unfold burn at h
  split at h
  · rename_i hn
    cases h
    exact ⟨Nat.sub_add_cancel hn.2, fun ha => update_of_ne ha _ _⟩
  · cases h

theorem transfer_some (h : t.transfer src dst n = some t') :
    n ≤ t.balances src ∧ t'.totalSupply = t.totalSupply ∧
      t'.balances = t.balances.transfer src dst n := by
  unfold transfer at h
  split at h
  · rename_i hn
    cases h
    exact ⟨hn, rfl, rfl⟩
  · cases h

end Token

/-! ## What is outstanding and what is held -/

/-- What tokens of a pair with the given total supply claim of the escrow of a denomination. -/
def TokenPair.claim (pair : TokenPair) (denom : Text) (totalSupply : Nat) : Nat :=
  if pair.contractOwner = .ownerModule ∧ pair.denom = denom then totalSupply else 0

namespace State

/-- The total supply at a contract. -/
def supplyAt (s : State) (contract : Address) : Nat :=
  (s.tokens contract).elim 0 Token.totalSupply

/-- The tokens of an account. -/
def heldBy (s : State) (account contract : Address) : Nat :=
  (s.tokens contract).elim 0 fun t => t.balances account

/-- The tokens that can be exchanged for coins of a denomination. -/
def issued (s : State) (denom : Text) : Nat :=
  s.registry.pairs.weight fun _ pair => pair.claim denom (s.supplyAt pair.erc20Address)

variable {s : State} {contract : Address} {t : Token}

theorem supplyAt_of_some (h : s.tokens contract = some t) :
    s.supplyAt contract = t.totalSupply := by
  rw [supplyAt, h, Option.elim_some]

theorem heldBy_of_some {account : Address} (h : s.tokens contract = some t) :
    s.heldBy account contract = t.balances account := by
  rw [heldBy, h, Option.elim_some]

/-- Tokens of the module are backed by coins in escrow, and coins that stand for tokens by tokens in
escrow. -/
structure Covered (env : Env) (s : State) : Prop where
  escrow : ∀ (id : Key) (p : TokenPair) (t : Token), s.registry.pairs[id]? = some p →
    p.contractOwner = .ownerModule → s.tokens p.erc20Address = some t →
    t.totalSupply ≤ s.bank.balances env.moduleAddress p.denom
  custody : ∀ (id : Key) (p : TokenPair) (t : Token), s.registry.pairs[id]? = some p →
    p.contractOwner = .ownerExternal → s.tokens p.erc20Address = some t →
    s.bank.supply p.denom ≤ t.balances env.moduleAddress

end State

/-- The app blocks the account of the module, and its address is not the zero address. -/
structure Env.Guarded (env : Env) : Prop where
  blocked : env.blockedAddr env.moduleAddress
  ne_zero : env.moduleAddress ≠ .zero

theorem Env.Lawful.contract_of_denom {env : Env} (henv : env.Lawful) {a b : Address}
    (h : createDenom (env.addressString a) = createDenom (env.addressString b)) : a = b := by
  have hstring : env.addressString a = env.addressString b := List.append_cancel_left h
  have hid : (newTokenPair a [] .ownerExternal).getID env =
      (newTokenPair b [] .ownerExternal).getID env := by
    simp only [getID, newTokenPair, hstring]
  exact (henv.getID_injective _ _ hid).1

/-- What does not depend on amounts: pairs have contracts, coins that stand for tokens have their
names, and there are none for a token that is not registered. -/
structure Shape (env : Env) (s : State) : Prop where
  sound : s.registry.Sound env
  contract : ∀ (id : Key) (p : TokenPair), s.registry.pairs[id]? = some p →
    (s.tokens p.erc20Address).isSome
  external : ∀ (id : Key) (p : TokenPair), s.registry.pairs[id]? = some p →
    p.contractOwner = .ownerExternal → p.denom = createDenom (env.addressString p.erc20Address)
  unregistered : ∀ a : Address, s.registry.byERC20[a.bytes]? = none →
    s.bank.supply (createDenom (env.addressString a)) = 0

/-- The pool covers what is outstanding, and `credit` more tokens of each contract. -/
structure Backed (env : Env) (credit : Address → Nat) (s : State) : Prop where
  escrow : ∀ denom, s.issued denom ≤ s.bank.balances env.moduleAddress denom
  custody : ∀ (id : Key) (p : TokenPair), s.registry.pairs[id]? = some p →
    p.contractOwner = .ownerExternal →
    s.bank.supply p.denom + credit p.erc20Address ≤ s.heldBy env.moduleAddress p.erc20Address

/-- The state between two steps: nothing waits for a conversion. -/
structure Solvent (env : Env) (s : State) : Prop where
  shape : Shape env s
  backed : Backed env (fun _ => 0) s

variable {env : Env} {s s' : State} {credit credit' : Address → Nat} {id : Key} {p : TokenPair}

theorem Solvent.covered (h : Solvent env s) : s.Covered env := by
  constructor
  · intro id p t hp howner ht
    have hall := h.backed.escrow p.denom
    have hadd := KVStore.weight_erase_add
      (fun _ pair => claim pair p.denom (s.supplyAt pair.erc20Address))
      s.registry.pairs id
    rw [hp, Option.elim_some, claim, if_pos ⟨howner, rfl⟩, supplyAt_of_some ht] at hadd
    unfold State.issued at hall
    omega
  · intro id p _ hp howner ht
    have hheld := h.backed.custody id p hp howner
    rw [heldBy_of_some ht] at hheld
    exact hheld

theorem Backed.mono (h : Backed env credit s) (hle : ∀ a, credit' a ≤ credit a) :
    Backed env credit' s where
  escrow := h.escrow
  custody id p hp howner := by
    have hheld := h.custody id p hp howner
    have hless := hle p.erc20Address
    omega

/-! ## One token and the bank -/

section

variable (h : Shape env s)

include h

theorem Shape.contract_unique {id' : Key} {q : TokenPair} (hp : s.registry.pairs[id]? = some p)
    (hq : s.registry.pairs[id']? = some q) (hcontr : p.erc20Address = q.erc20Address) :
    id = id' ∧ p = q := by
  have hid := h.sound.contracts.unique hp hq (congrArg Address.bytes hcontr)
  exact ⟨hid, Registry.eq_of_get hp hq hid⟩

theorem Shape.of_registry (hreg : s'.registry = s.registry)
    (htokens : ∀ (id : Key) (p : TokenPair), s.registry.pairs[id]? = some p →
      (s'.tokens p.erc20Address).isSome)
    (hsupply : ∀ a : Address, s.registry.byERC20[a.bytes]? = none →
      s'.bank.supply (createDenom (env.addressString a)) ≤
        s.bank.supply (createDenom (env.addressString a))) : Shape env s' where
  sound := by
    rw [hreg]
    exact h.sound
  contract := by
    rw [hreg]
    exact htokens
  external := by
    rw [hreg]
    exact h.external
  unregistered a ha := by
    rw [hreg] at ha
    have hzero := h.unregistered a ha
    have hle := hsupply a ha
    omega

theorem Shape.setToken (contract : Address) (t : Token) : Shape env (s.setToken contract t) := by
  refine h.of_registry rfl ?_ (fun a _ => Nat.le_refl _)
  intro id p hp
  by_cases hcontr : p.erc20Address = contract
  · rw [hcontr, setToken_self]
    rfl
  · rw [setToken_of_ne s t hcontr]
    exact h.contract id p hp

end

variable {b : Bank} {t : Token} {n : Nat} {coin : PacketCoin} {dst : Address} {denom : Text}

theorem Shape.setBank (h : Shape env s)
    (hsupply : ∀ a : Address, s.registry.byERC20[a.bytes]? = none →
      b.supply (createDenom (env.addressString a)) ≤
        s.bank.supply (createDenom (env.addressString a))) : Shape env (s.setBank b) :=
  h.of_registry rfl h.contract hsupply

theorem issued_setToken (h : Shape env s) (hp : s.registry.pairs[id]? = some p)
    (ht : s.tokens p.erc20Address = some t) (t' : Token) (denom : Text) :
    (s.setToken p.erc20Address t').issued denom + p.claim denom t.totalSupply =
      s.issued denom + p.claim denom t'.totalSupply := by
  have hchange := KVStore.weight_change
    (f := fun _ q => claim q denom ((s.setToken p.erc20Address t').supplyAt q.erc20Address))
    (g := fun _ q => claim q denom (s.supplyAt q.erc20Address)) hp ?_
  · rw [supplyAt_of_some ht, supplyAt_of_some (setToken_self s _ t')] at hchange
    exact hchange
  intro _ q hne hq
  have hcontr : q.erc20Address ≠ p.erc20Address := fun heq =>
    hne (h.contract_unique hq hp heq).1
  simp only [State.supplyAt, setToken_of_ne s t' hcontr]

theorem Backed.convert (hshape : Shape env s) (h : Backed env credit s) {t' : Token}
    (hp : s.registry.pairs[id]? = some p) (ht : s.tokens p.erc20Address = some t)
    (hescrow : ∀ d, p.claim d t'.totalSupply + s.bank.balances env.moduleAddress d ≤
      p.claim d t.totalSupply + b.balances env.moduleAddress d)
    (hcustody : p.contractOwner = .ownerExternal →
      s.bank.supply p.denom + credit p.erc20Address ≤ t.balances env.moduleAddress →
      b.supply p.denom + credit' p.erc20Address ≤ t'.balances env.moduleAddress)
    (hother : ∀ a, a ≠ p.erc20Address → b.supply (createDenom (env.addressString a)) + credit' a ≤
        s.bank.supply (createDenom (env.addressString a)) + credit a) :
    Backed env credit' ((s.setToken p.erc20Address t').setBank b) where
  escrow d := by
    have hissued := issued_setToken hshape hp ht t' d
    have hall := h.escrow d
    have hmove := hescrow d
    change (s.setToken p.erc20Address t').issued d ≤ b.balances env.moduleAddress d
    omega
  custody id' q hq howner := by
    have hheld := h.custody id' q hq howner
    by_cases hcontr : q.erc20Address = p.erc20Address
    · obtain ⟨-, rfl⟩ := hshape.contract_unique hq hp hcontr
      rw [heldBy_of_some ht] at hheld
      have hnew : ((s.setToken q.erc20Address t').setBank b).heldBy env.moduleAddress
          q.erc20Address = t'.balances env.moduleAddress :=
        heldBy_of_some (setToken_self s _ t')
      rw [hnew]
      exact hcustody howner hheld
    · have hless := hother q.erc20Address hcontr
      rw [hshape.external id' q hq howner] at hheld ⊢
      have hsame : ((s.setToken p.erc20Address t').setBank b).heldBy env.moduleAddress
          q.erc20Address = s.heldBy env.moduleAddress q.erc20Address := by
        simp only [State.heldBy, State.setBank, setToken_of_ne s t' hcontr]
      rw [hsame]
      exact hless.trans hheld

/-! ## Conversions -/

section

variable {p : TokenPair} {id : Key} {a : Address}

theorem ne_of_blocked (hguard : env.Guarded) (h : env.blockedAddr a = false) :
    a ≠ env.moduleAddress := by
  rintro rfl
  rw [hguard.blocked] at h
  cases h

theorem Shape.denom_ne (henv : env.Lawful) (h : Shape env s) (hp : s.registry.pairs[id]? = some p)
    (howner : p.contractOwner = .ownerExternal) (ha : a ≠ p.erc20Address) :
    createDenom (env.addressString a) ≠ p.denom := by
  rw [h.external id p hp howner]
  exact fun heq => ha (henv.contract_of_denom heq)

theorem Shape.registered (h : Shape env s) (hp : s.registry.pairs[id]? = some p)
    (ha : s.registry.byERC20[a.bytes]? = none) : a ≠ p.erc20Address := by
  rintro rfl
  have hentry := h.sound.contracts.get hp
  rw [contractKey, ha] at hentry
  cases hentry

variable {t t' : Token} {msg : MsgConvertCoin}

theorem Solvent.convert (h : Solvent env s) (hp : s.registry.pairs[id]? = some p)
    (ht : s.tokens p.erc20Address = some t)
    (hescrow : ∀ d, p.claim d t'.totalSupply + s.bank.balances env.moduleAddress d ≤
      p.claim d t.totalSupply + b.balances env.moduleAddress d)
    (hcustody : p.contractOwner = .ownerExternal →
      s.bank.supply p.denom ≤ t.balances env.moduleAddress →
      b.supply p.denom ≤ t'.balances env.moduleAddress)
    (hother : ∀ a, a ≠ p.erc20Address → b.supply (createDenom (env.addressString a)) ≤
      s.bank.supply (createDenom (env.addressString a))) :
    Solvent env ((s.setToken p.erc20Address t').setBank b) where
  shape := (h.shape.setToken _ _).setBank fun a ha => hother a (h.shape.registered hp ha)
  backed := h.backed.convert h.shape hp ht hescrow hcustody hother

theorem convertCoinNativeCoin_solvent (h : Solvent env s) (hp : s.registry.pairs[id]? = some p)
    (howner : p.contractOwner = .ownerModule) (hdenom : p.denom = msg.denom)
    (hsender : msg.sender ≠ env.moduleAddress)
    (hconv : convertCoinNativeCoin env s p msg = .ok s') : Solvent env s' := by
  obtain ⟨_, _, ht, hmint, -, rfl⟩ := convertCoinNativeCoin_ok hconv
  obtain ⟨hsupply, -⟩ := Token.mint_some (a := msg.receiver) hmint
  refine h.convert hp ht ?_ ?_ (fun a _ => Nat.le_refl _)
  · intro d
    rw [balances_move_dst _ _ _ _ hsender, hsupply, claim, claim, hdenom]
    by_cases hd : msg.denom = d
    · rw [if_pos ⟨howner, hd⟩, if_pos ⟨howner, hd⟩, if_pos hd.symm]
      omega
    · rw [if_neg fun hand => hd hand.2, if_neg fun hand => hd hand.2, if_neg (Ne.symm hd)]
      exact Nat.le_refl _
  · intro hext
    rw [howner] at hext
    cases hext

theorem claim_burn (howner : p.contractOwner = .ownerModule)
    (hsupply : t'.totalSupply + n = t.totalSupply) (b : Bank) (dst : Address) (d : Text) :
    p.claim d t'.totalSupply + b.balances env.moduleAddress d ≤ p.claim d t.totalSupply +
      (b.move env.moduleAddress dst p.denom n).balances env.moduleAddress d := by
  have hmove := b.le_move_add env.moduleAddress dst env.moduleAddress p.denom d n
  unfold claim
  by_cases hd : p.denom = d
  · rw [if_pos ⟨howner, hd⟩, if_pos ⟨howner, hd⟩]
    rw [if_pos hd.symm] at hmove
    omega
  · rw [if_neg fun hand => hd hand.2, if_neg fun hand => hd hand.2]
    rw [if_neg (Ne.symm hd)] at hmove
    omega

theorem convertERC20NativeCoin_solvent (h : Solvent env s) {msg : MsgConvertERC20}
    (hp : s.registry.pairs[id]? = some p) (howner : p.contractOwner = .ownerModule)
    (hconv : convertERC20NativeCoin env s p msg = .ok s') : Solvent env s' := by
  obtain ⟨_, _, ht, hburn, -, rfl⟩ := convertERC20NativeCoin_ok hconv
  obtain ⟨hsupply, -⟩ := Token.burn_some (a := msg.receiver) hburn
  refine h.convert hp ht (claim_burn howner hsupply s.bank msg.receiver) ?_
    (fun a _ => Nat.le_refl _)
  intro hext
  rw [howner] at hext
  cases hext

theorem claim_external (howner : p.contractOwner = .ownerExternal) (d : Text) (n : Nat) :
    p.claim d n = 0 := by
  unfold claim
  rw [howner]
  exact if_neg fun hand => by cases hand.1

theorem le_create_move (b : Bank) (dst : Address) (denom d : Text) (n : Nat) :
    b.balances env.moduleAddress d ≤
      ((b.create env.moduleAddress denom n).move env.moduleAddress dst denom n).balances
        env.moduleAddress d := by
  have hmove := (b.create env.moduleAddress denom n).le_move_add env.moduleAddress dst
    env.moduleAddress denom d n
  rw [balances_create] at hmove
  by_cases hd : d = denom
  · rw [if_pos ⟨rfl, hd⟩, if_pos hd] at hmove
    omega
  · rw [if_neg fun hand => hd hand.2, if_neg hd] at hmove
    omega

theorem convertERC20NativeToken_solvent (henv : env.Lawful) (h : Solvent env s)
    {msg : MsgConvertERC20} (hp : s.registry.pairs[id]? = some p)
    (howner : p.contractOwner = .ownerExternal)
    (hconv : convertERC20NativeToken env s p msg = .ok s') : Solvent env s' := by
  obtain ⟨_, _, ht, -, hgrown, rfl⟩ := convertERC20NativeToken_ok hconv
  refine h.convert hp ht ?_ ?_ ?_
  · intro d
    rw [claim_external howner, claim_external howner]
    exact Nat.add_le_add_left (le_create_move s.bank msg.receiver p.denom d msg.amount) 0
  · intro _ _
    change (s.bank.create env.moduleAddress p.denom msg.amount).supply p.denom ≤ _
    rw [supply_create, if_pos rfl, hgrown]
    omega
  intro _ ha
  change (s.bank.create env.moduleAddress p.denom msg.amount).supply _ ≤ _
  rw [supply_create, if_neg (h.shape.denom_ne henv hp howner ha)]
  exact Nat.le_refl _

theorem convertCoinNativeERC20_solvent (h : Solvent env s) (hp : s.registry.pairs[id]? = some p)
    (howner : p.contractOwner = .ownerExternal) (hdenom : p.denom = msg.denom)
    (hsender : msg.sender ≠ env.moduleAddress) (hreceiver : msg.receiver ≠ env.moduleAddress)
    (hconv : convertCoinNativeERC20 env s p msg = .ok s') : Solvent env s' := by
  obtain ⟨_, _, ht, htransfer, -, -, rfl⟩ := convertCoinNativeERC20_ok hconv
  obtain ⟨_, -, hbals⟩ := Token.transfer_some htransfer
  refine h.convert hp ht ?_ ?_ ?_
  · intro d
    rw [claim_external howner, claim_external howner, balances_destroy,
      balances_move_dst _ _ _ _ hsender]
    by_cases hd : d = msg.denom
    · rw [if_pos hd, if_pos ⟨rfl, hd⟩]
      omega
    · rw [if_neg hd, if_neg fun hand => hd hand.2]
      omega
  · intro _ hheld
    rw [supply_destroy, hdenom, if_pos rfl, hbals, transfer_src _ _ (Ne.symm hreceiver)]
    rw [hdenom] at hheld
    exact Nat.sub_le_sub_right hheld _
  · intro _ _
    rw [supply_destroy]
    exact Nat.sub_le _ _

/-- The pair found for a coin is a pair of that coin. -/
def State.Matches (s : State) (denom : Text) : Prop :=
  ∀ pair ∈ (s.registry.getTokenPairID denom).bind (fun id => s.registry.pairs[id]?),
    pair.denom = denom
deriving Decidable

theorem convertCoin_solvent (hguard : env.Guarded) (h : Solvent env s)
    (hmatch : s.Matches msg.denom) (hsender : msg.sender ≠ env.moduleAddress)
    (hconv : convertCoin env s msg = .ok s') : Solvent env s' := by
  obtain ⟨pair, id, hid, hget, hblocked, hcases⟩ := convertCoin_ok hconv
  have hdenom : pair.denom = msg.denom := by
    refine hmatch pair ?_
    rw [hid]
    exact hget
  obtain ⟨hnone, -⟩ | ⟨howner, hone⟩ | ⟨howner, hone⟩ := hcases
  · have hsome := h.shape.contract id pair hget
    rw [hnone] at hsome
    cases hsome
  · exact convertCoinNativeCoin_solvent h hget howner hdenom hsender hone
  · exact convertCoinNativeERC20_solvent h hget howner hdenom hsender
      (ne_of_blocked hguard hblocked) hone

theorem convertERC20_solvent (henv : env.Lawful) (h : Solvent env s) {msg : MsgConvertERC20}
    (hconv : convertERC20 env s msg = .ok s') : Solvent env s' := by
  obtain ⟨pair, id, -, hget, hcases⟩ := convertERC20_ok hconv
  obtain ⟨hnone, -⟩ | ⟨howner, hone⟩ | ⟨howner, hone⟩ := hcases
  · have hsome := h.shape.contract id pair hget
    rw [hnone] at hsome
    cases hsome
  · exact convertERC20NativeCoin_solvent h hget howner hone
  · exact convertERC20NativeToken_solvent henv h hget howner hone

end

/-! ## Packets -/

theorem Solvent.setBank (h : Solvent env s)
    (hescrow : ∀ d, s.bank.balances env.moduleAddress d ≤ b.balances env.moduleAddress d)
    (hsupply : ∀ a, b.supply (createDenom (env.addressString a)) ≤
      s.bank.supply (createDenom (env.addressString a))) : Solvent env (s.setBank b) where
  shape := h.shape.setBank fun a _ => hsupply a
  backed := by
    refine ⟨fun d => (h.backed.escrow d).trans (hescrow d), ?_⟩
    intro id p hp howner
    have hheld := h.backed.custody id p hp howner
    have hless := hsupply p.erc20Address
    rw [h.shape.external id p hp howner] at hheld ⊢
    exact (Nat.add_le_add_right hless 0).trans hheld

theorem createDenom_ne_voucher (address hash : Text) :
    createDenom address ≠ ascii "ibc/" ++ hash := by
  intro h
  have hhead := congrArg List.head? h
  simp [createDenom, moduleName, ascii] at hhead

theorem creditCoin_solvent (h : Solvent env s)
    (hescrow : ∀ denom escrow, coin = .returning denom escrow → escrow ≠ env.moduleAddress)
    (hcredit : creditCoin env s coin n dst = .ok s') : Solvent env s' := by
  obtain ⟨-, ⟨hash, rfl, rfl⟩ | ⟨denom, escrow, rfl, -, rfl⟩⟩ := creditCoin_ok hcredit
  · refine h.setBank ?_ ?_
    · intro d
      rw [balances_create]
      exact Nat.le_add_right _ _
    · intro a
      rw [supply_create, PacketCoin.denom, if_neg (createDenom_ne_voucher _ hash)]
      exact Nat.le_refl _
  · have hne := hescrow denom escrow rfl
    exact h.setBank (fun d => s.bank.le_move dst denom d n (.symm hne)) fun a => Nat.le_refl _

theorem debitCoin_solvent (h : Solvent env s) {src : Address} {escrow : Option Address}
    (hsrc : src ≠ env.moduleAddress) (hdebit : debitCoin env s src denom n escrow = .ok s') :
    Solvent env s' := by
  obtain ⟨-, ⟨dst, rfl⟩ | rfl⟩ := debitCoin_ok hdebit
  · exact h.setBank (fun d => s.bank.le_move dst denom d n (.symm hsrc)) fun a => Nat.le_refl _
  refine h.setBank ?_ ?_
  · intro _
    rw [balances_destroy, if_neg fun hand => hsrc hand.1.symm]
    exact Nat.le_refl _
  · intro _
    rw [supply_destroy]
    exact Nat.sub_le _ _

theorem creditCoin_matches (hcredit : creditCoin env s coin n dst = .ok s') (h : s.Matches denom) :
    s'.Matches denom := by
  obtain ⟨-, ⟨-, -, rfl⟩ | ⟨-, -, -, -, rfl⟩⟩ := creditCoin_ok hcredit <;> exact h

variable {packet : Packet}

theorem packet_solvent (hguard : env.Guarded) (h : Solvent env s)
    (hescrow : ∀ denom escrow, packet.coin = .returning denom escrow →
      escrow ≠ env.moduleAddress) (hmatch : s.Matches packet.coin.denom)
    (hpacket : recvPacket env s packet = .ok s' ∨ refundPacket env s packet = .ok s') :
    Solvent env s' := by
  obtain ⟨_, _, hcredit, hpacket⟩ := packet_ok hpacket
  have hacc := ne_of_blocked hguard (creditCoin_ok hcredit).1
  have h₁ := creditCoin_solvent h hescrow hcredit
  obtain rfl | ⟨_, hconv⟩ := hpacket
  · exact h₁
  · exact convertCoin_solvent hguard h₁ (creditCoin_matches hcredit hmatch) hacc hconv

theorem ibcTransfer_solvent (henv : env.Lawful) (h : Solvent env s) {msg : MsgTransfer}
    (hsender : msg.sender ≠ env.moduleAddress) (htransfer : ibcTransfer env s msg = .ok s') :
    Solvent env s' := by
  obtain ⟨_, _, hdebit, hconv⟩ := ibcTransfer_ok htransfer
  refine debitCoin_solvent ?_ hsender hdebit
  obtain rfl | ⟨_, _, hconv⟩ := hconv
  · exact h
  · exact convertERC20_solvent henv h hconv

end HyperPax.Erc20
