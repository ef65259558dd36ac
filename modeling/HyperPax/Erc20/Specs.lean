/-
  Erc20/Specs.lean --- what an operation has done when it succeeds.

  One lemma for each operation: the checks it passed and the new state in terms of the old.
  The proofs about the registry and about the backing use these and do not unfold the
  operations.
-/
import HyperPax.Erc20.Hooks

set_option autoImplicit false

namespace HyperPax.Erc20

open Lib Option

variable {env : Env} {s s' : State} {src dst contract account : Address} {denom token : Text}
  {n : Nat} {act : Token → Option Token} {t : Token} {pair : TokenPair} {metadata : Metadata}
  {p : Packet}

/-! ## Coins -/

/-- The bank is replaced. -/
def State.setBank (s : State) (bank : Bank) : State := { s with bank }

theorem sendCoins_ok {e : Err} (h : sendCoins env s src dst denom n e = .ok s') :
    n ≤ s.bank.balances src denom ∧ s' = s.setBank (s.bank.move src dst denom n) := by
  obtain ⟨⟨-, hn⟩, h⟩ := require_bind_ok.mp h
  cases h
  exact ⟨hn, rfl⟩

theorem sendFromModule_ok (h : sendFromModule env s dst denom n = .ok s') :
    env.blockedAddr dst = false ∧ n ≤ s.bank.balances env.moduleAddress denom ∧
      s' = s.setBank (s.bank.move env.moduleAddress dst denom n) := by
  obtain ⟨hblocked, h⟩ := require_bind_ok.mp h
  exact ⟨hblocked, sendCoins_ok h⟩

theorem mintCoins_ok (h : mintCoins env s denom n = .ok s') :
    s' = s.setBank (s.bank.create env.moduleAddress denom n) := by
  have h := of_require h
  cases h
  rfl

theorem burnCoins_ok (h : burnCoins env s denom n = .ok s') :
    n ≤ s.bank.balances env.moduleAddress denom ∧
      s' = s.setBank (s.bank.destroy env.moduleAddress denom n) := by
  obtain ⟨hn, h⟩ := require_bind_ok.mp h
  cases h
  exact ⟨hn, rfl⟩

/-! ## Tokens -/

/-- The token at a contract is replaced. -/
def State.setToken (s : State) (contract : Address) (t : Token) : State :=
  { s with tokens := Function.update s.tokens contract (some t) }

theorem setToken_self (s : State) (contract : Address) (t : Token) :
    (s.setToken contract t).tokens contract = some t :=
  Function.update_self _ _ _

theorem setToken_of_ne (s : State) {a : Address} (t : Token) (h : a ≠ contract) :
    (s.setToken contract t).tokens a = s.tokens a :=
  Function.update_of_ne h _ _

theorem callToken_ok {call : Call} (h : callToken env s call act = .ok s') :
    (s.tokens call.contract = none ∧ s' = s) ∨
      ∃ t t', s.tokens call.contract = some t ∧ act t = some t' ∧
        s' = s.setToken call.contract t' := by
  have h := of_require h
  cases ht : s.tokens call.contract with
  | none =>
    rw [ht] at h
    cases h
    exact .inl ⟨rfl, rfl⟩
  | some t =>
    rw [ht] at h
    obtain ⟨t', hact, h⟩ := orRevert_bind_ok.mp h
    cases h
    exact Or.inr ⟨t, t', rfl, hact, rfl⟩

theorem callToken_ok_of_some (call : Call) (h : callToken env s call act = .ok s')
    (ht : s.tokens call.contract = some t) :
    ∃ t', act t = some t' ∧ s' = s.setToken call.contract t' := by
  obtain ⟨hnone, -⟩ | ⟨_, t', ht₁, hact, rfl⟩ := callToken_ok h
  · rw [ht] at hnone
    cases hnone
  rw [ht] at ht₁
  cases ht₁
  exact ⟨t', hact, rfl⟩

theorem mintTokens_ok (h : mintTokens env s contract dst n = .ok s')
    (ht : s.tokens contract = some t) :
    ∃ t', t.mint dst n = some t' ∧ s' = s.setToken contract t' :=
  callToken_ok_of_some (.mint contract dst n) h ht

theorem burnTokensOf_ok (h : burnTokensOf env s contract src n = .ok s')
    (ht : s.tokens contract = some t) :
    ∃ t', t.burn src n = some t' ∧ s' = s.setToken contract t' :=
  callToken_ok_of_some (.burnCoins contract src n) h ht

theorem burnTokens_ok (h : burnTokens env s contract n = .ok s') (ht : s.tokens contract = some t) :
    ∃ t', t.burn env.moduleAddress n = some t' ∧ s' = s.setToken contract t' :=
  callToken_ok_of_some (.burn contract n) h ht

theorem balanceOf_ok (h : balanceOf env s contract account = .ok n) :
    ∃ t, s.tokens contract = some t ∧ t.balances account = n := by
  have h := of_require h
  obtain ⟨t, ht, h⟩ := orRevert_bind_ok.mp h
  cases h
  exact ⟨t, ht, rfl⟩

theorem transferTokens_ok {caller : Address}
    (h : transferTokens env s caller contract dst n = .ok s') (ht : s.tokens contract = some t) :
    ∃ t', t.transfer caller dst n = some t' ∧ s' = s.setToken contract t' := by
  have h := of_require h
  exact callToken_ok_of_some (.transfer caller contract dst n) h ht

theorem expectTokens_ok {expected : Nat} {u : Unit}
    (h : expectTokens env s contract account expected = .ok u) (ht : s.tokens contract = some t) :
    t.balances account = expected := by
  obtain ⟨_, hactual, h⟩ := bind_ok.mp h
  obtain rfl := require_ok.mp h
  obtain ⟨_, ht', hbal⟩ := balanceOf_ok hactual
  rw [ht] at ht'
  cases ht'
  exact hbal

/-! ## Conversions -/

section

variable {pair : TokenPair} {msg : MsgConvertCoin}

theorem convertCoinNativeCoin_ok (h : convertCoinNativeCoin env s pair msg = .ok s') :
    ∃ t t', s.tokens pair.erc20Address = some t ∧ t.mint msg.receiver msg.amount = some t' ∧
      msg.amount ≤ s.bank.balances msg.sender msg.denom ∧
      s' = (s.setToken pair.erc20Address t').setBank
        (s.bank.move msg.sender env.moduleAddress msg.denom msg.amount) := by
  obtain ⟨_, hbal, h⟩ := bind_ok.mp h
  obtain ⟨t, ht, -⟩ := balanceOf_ok hbal
  obtain ⟨_, hsend, h⟩ := bind_ok.mp h
  obtain ⟨hn, rfl⟩ := sendCoins_ok hsend
  obtain ⟨_, hmint, h⟩ := bind_ok.mp h
  obtain ⟨t', hact, rfl⟩ := mintTokens_ok hmint ht
  obtain ⟨-, -, h⟩ := bind_ok.mp h
  exact ⟨t, t', ht, hact, hn, (Except.ok.inj h).symm⟩

theorem convertERC20NativeCoin_ok {msg : MsgConvertERC20}
    (h : convertERC20NativeCoin env s pair msg = .ok s') :
    ∃ t t', s.tokens pair.erc20Address = some t ∧ t.burn msg.sender msg.amount = some t' ∧
      msg.amount ≤ s.bank.balances env.moduleAddress pair.denom ∧
      s' = (s.setToken pair.erc20Address t').setBank
        (s.bank.move env.moduleAddress msg.receiver pair.denom msg.amount) := by
  obtain ⟨_, hbal, h⟩ := bind_ok.mp h
  obtain ⟨t, ht, -⟩ := balanceOf_ok hbal
  obtain ⟨_, hburn, h⟩ := bind_ok.mp h
  obtain ⟨t', hact, rfl⟩ := burnTokensOf_ok hburn ht
  obtain ⟨_, hsend, h⟩ := bind_ok.mp h
  obtain ⟨-, hn, rfl⟩ := sendFromModule_ok hsend
  obtain ⟨-, -, h⟩ := bind_ok.mp h
  obtain ⟨-, -, h⟩ := bind_ok.mp h
  exact ⟨t, t', ht, hact, hn, (Except.ok.inj h).symm⟩

theorem convertERC20NativeToken_ok {msg : MsgConvertERC20}
    (h : convertERC20NativeToken env s pair msg = .ok s') :
    ∃ t t', s.tokens pair.erc20Address = some t ∧
      t.transfer msg.sender env.moduleAddress msg.amount = some t' ∧
      t'.balances env.moduleAddress = t.balances env.moduleAddress + msg.amount ∧
      s' = (s.setToken pair.erc20Address t').setBank
        ((s.bank.create env.moduleAddress pair.denom msg.amount).move env.moduleAddress
          msg.receiver pair.denom msg.amount) := by
  obtain ⟨_, hbal, h⟩ := bind_ok.mp h
  obtain ⟨t, ht, rfl⟩ := balanceOf_ok hbal
  obtain ⟨_, htransfer, h⟩ := bind_ok.mp h
  obtain ⟨t', hact, rfl⟩ := transferTokens_ok htransfer ht
  obtain ⟨_, hexpect, h⟩ := bind_ok.mp h
  have hgrown := expectTokens_ok hexpect (setToken_self s _ t')
  obtain ⟨_, hmint, h⟩ := bind_ok.mp h
  obtain rfl := mintCoins_ok hmint
  obtain ⟨_, hsend, h⟩ := bind_ok.mp h
  obtain ⟨-, -, rfl⟩ := sendFromModule_ok hsend
  obtain ⟨-, -, h⟩ := bind_ok.mp h
  obtain ⟨-, -, h⟩ := bind_ok.mp h
  exact ⟨t, t', ht, hact, hgrown, (Except.ok.inj h).symm⟩

theorem convertCoinNativeERC20_ok (h : convertCoinNativeERC20 env s pair msg = .ok s') :
    ∃ t t', s.tokens pair.erc20Address = some t ∧
      t.transfer env.moduleAddress msg.receiver msg.amount = some t' ∧
      t'.balances msg.receiver = t.balances msg.receiver + msg.amount ∧
      msg.amount ≤ s.bank.balances msg.sender msg.denom ∧
      s' = (s.setToken pair.erc20Address t').setBank
        ((s.bank.move msg.sender env.moduleAddress msg.denom msg.amount).destroy env.moduleAddress
          msg.denom msg.amount) := by
  obtain ⟨_, hbal, h⟩ := bind_ok.mp h
  obtain ⟨t, ht, rfl⟩ := balanceOf_ok hbal
  obtain ⟨_, hsend, h⟩ := bind_ok.mp h
  obtain ⟨hn, rfl⟩ := sendCoins_ok hsend
  obtain ⟨_, htransfer, h⟩ := bind_ok.mp h
  obtain ⟨t', hact, rfl⟩ := transferTokens_ok htransfer ht
  obtain ⟨_, hexpect, h⟩ := bind_ok.mp h
  have hgrown := expectTokens_ok hexpect (setToken_self _ _ t')
  obtain ⟨_, hburn, h⟩ := bind_ok.mp h
  obtain ⟨-, rfl⟩ := burnCoins_ok hburn
  obtain ⟨-, -, h⟩ := bind_ok.mp h
  exact ⟨t, t', ht, hact, hgrown, hn, (Except.ok.inj h).symm⟩

end

theorem pairOf_ok (h : pairOf s token = .ok pair) :
    ∃ id, s.registry.getTokenPairID token = some id ∧ s.registry.pairs[id]? = some pair := by
  obtain ⟨id, hid, h⟩ := orRevert_bind_ok.mp h
  exact ⟨id, hid, orRevert_ok.mp h⟩

theorem mintingEnabled_ok {sender receiver : Address}
    (h : mintingEnabled env s sender receiver token = .ok pair) : env.blockedAddr receiver = false ∧
      ∃ id, s.registry.getTokenPairID token = some id ∧ s.registry.pairs[id]? = some pair := by
  have h := of_require h
  obtain ⟨_, hpair, h⟩ := bind_ok.mp h
  have h := of_require h
  obtain ⟨hblocked, h⟩ := require_bind_ok.mp h
  have h := of_require h
  cases h
  exact ⟨hblocked, pairOf_ok hpair⟩

theorem convertCoin_ok {msg : MsgConvertCoin} (h : convertCoin env s msg = .ok s') :
    ∃ pair id, s.registry.getTokenPairID msg.denom = some id ∧
      s.registry.pairs[id]? = some pair ∧ env.blockedAddr msg.receiver = false ∧
      ((s.tokens pair.erc20Address = none ∧ s' = deletePair env s pair) ∨
        (pair.contractOwner = .ownerModule ∧ convertCoinNativeCoin env s pair msg = .ok s') ∨
        (pair.contractOwner = .ownerExternal ∧
          convertCoinNativeERC20 env s pair msg = .ok s')) := by
  obtain ⟨pair, hpair, h⟩ := bind_ok.mp h
  obtain ⟨hblocked, id, hid, hget⟩ := mintingEnabled_ok hpair
  refine ⟨pair, id, hid, hget, hblocked, ?_⟩
  split at h
  · rename_i hnone
    cases h
    exact .inl ⟨isNone_iff_eq_none.mp hnone, rfl⟩
  cases howner : pair.contractOwner with
  | ownerUnspecified =>
    rw [howner] at h
    cases h
  | ownerModule =>
    rw [howner] at h
    exact .inr (.inl ⟨rfl, h⟩)
  | ownerExternal =>
    rw [howner] at h
    exact .inr (.inr ⟨rfl, h⟩)

/-- What a conversion of tokens does. -/
theorem convertERC20_ok {msg : MsgConvertERC20} (h : convertERC20 env s msg = .ok s') :
    ∃ pair id, s.registry.getTokenPairID msg.contractAddress = some id ∧
      s.registry.pairs[id]? = some pair ∧
      ((s.tokens pair.erc20Address = none ∧ s' = deletePair env s pair) ∨
        (pair.contractOwner = .ownerModule ∧ convertERC20NativeCoin env s pair msg = .ok s') ∨
        (pair.contractOwner = .ownerExternal ∧
          convertERC20NativeToken env s pair msg = .ok s')) := by
  obtain ⟨pair, hpair, h⟩ := bind_ok.mp h
  obtain ⟨-, id, hid, hget⟩ := mintingEnabled_ok hpair
  refine ⟨pair, id, hid, hget, ?_⟩
  split at h
  · rename_i hnone
    cases h
    exact .inl ⟨isNone_iff_eq_none.mp hnone, rfl⟩
  cases howner : pair.contractOwner with
  | ownerUnspecified =>
    rw [howner] at h
    cases h
  | ownerModule =>
    rw [howner] at h
    exact .inr (.inl ⟨rfl, h⟩)
  | ownerExternal =>
    rw [howner] at h
    exact .inr (.inr ⟨rfl, h⟩)

/-! ## Registration -/

theorem verifyMetadata_ok (h : verifyMetadata s metadata = .ok s') :
    s' = s ∨ s' = s.setBank (s.bank.setDenomMetaData metadata) := by
  unfold verifyMetadata at h
  cases hstored : s.bank.metadata metadata.base with
  | none =>
    rw [hstored] at h
    exact Or.inr (Except.ok.inj h).symm
  | some =>
    rw [hstored] at h
    have h := of_require h
    exact Or.inl (Except.ok.inj h).symm

theorem registerCoin_ok (h : registerCoin env s metadata = .ok s') :
    ∃ s₁ contract, verifyMetadata s metadata = .ok s₁ ∧ env.deploy s₁ metadata = some contract ∧
      s' = { s₁.setToken contract ⟨fun _ => 0, 0⟩ with
        registry := s.registry.register env
          (newTokenPair contract metadata.base .ownerModule) } := by
  have h := of_require h
  have h := of_require h
  obtain ⟨s₁, hverify, h⟩ := bind_ok.mp h
  obtain ⟨_, hdeployed, h⟩ := bind_ok.mp h
  obtain ⟨contract, hcontr, hdeployed⟩ := orRevert_bind_ok.mp hdeployed
  cases hdeployed
  refine ⟨s₁, contract, hverify, hcontr, ?_⟩
  have hreg : s₁.registry = s.registry := by obtain rfl | rfl := verifyMetadata_ok hverify <;> rfl
  rw [← hreg]
  exact (Except.ok.inj h).symm

theorem name_coinMetadataOf (env : Env) (contract : Address) (data : ERC20Data) :
    (coinMetadataOf env contract data).name = createDenom (env.addressString contract) ∧
      (coinMetadataOf env contract data).base = createDenom (env.addressString contract) := by
  unfold coinMetadataOf
  split <;> exact ⟨rfl, rfl⟩

theorem registerERC20_ok (h : registerERC20 env s contract = .ok s') :
    ∃ metadata : Metadata, metadata.base = createDenom (env.addressString contract) ∧
      (s.tokens contract).isSome ∧
      s.bank.metadata (createDenom (env.addressString contract)) = none ∧
      s.registry.isERC20Registered contract = false ∧
      s.registry.isDenomRegistered (createDenom (env.addressString contract)) = false ∧
      s' = { s with
        bank := s.bank.setDenomMetaData metadata
        registry := s.registry.register env
          (newTokenPair contract (createDenom (env.addressString contract)) .ownerExternal) } := by
  obtain ⟨hcontr, h⟩ := require_bind_ok.mp h
  obtain ⟨_, hcreated, h⟩ := bind_ok.mp h
  obtain ⟨data, hdata, hcreated⟩ := bind_ok.mp hcreated
  obtain ⟨hsome, -⟩ := require_bind_ok.mp hdata
  obtain ⟨hnone, hcreated⟩ := require_bind_ok.mp hcreated
  obtain ⟨hdenom, hcreated⟩ := require_bind_ok.mp hcreated
  obtain ⟨-, hcreated⟩ := require_bind_ok.mp hcreated
  cases hcreated
  obtain ⟨hname, hbase⟩ := name_coinMetadataOf env contract data
  refine ⟨_, hbase, hsome, isNone_iff_eq_none.mp hnone, hcontr, hdenom, ?_⟩
  rw [← hname]
  exact (Except.ok.inj h).symm

theorem toggleConversion_ok (h : toggleConversion env s token = .ok s') :
    ∃ (pair : TokenPair) (id : Key), s.registry.pairs[id]? = some pair ∧
      s' = { s with
        registry := s.registry.setTokenPair env { pair with enabled := !pair.enabled } } := by
  obtain ⟨pair, hpair, h⟩ := bind_ok.mp h
  obtain ⟨id, -, hget⟩ := pairOf_ok hpair
  exact ⟨pair, id, hget, (Except.ok.inj h).symm⟩

/-! ## Packets -/

theorem creditCoin_ok {coin : PacketCoin} (h : creditCoin env s coin n dst = .ok s') :
    env.blockedAddr dst = false ∧
      ((∃ hash, coin = .voucher hash ∧ s' = s.setBank (s.bank.create dst coin.denom n)) ∨
        ∃ denom escrow, coin = .returning denom escrow ∧ n ≤ s.bank.balances escrow denom ∧
          s' = s.setBank (s.bank.move escrow dst denom n)) := by
  obtain ⟨hblocked, h⟩ := require_bind_ok.mp h
  cases coin with
  | voucher hash => exact ⟨hblocked, Or.inl ⟨hash, rfl, (Except.ok.inj h).symm⟩⟩
  | returning denom escrow =>
    obtain ⟨hn, rfl⟩ := sendCoins_ok h
    exact ⟨hblocked, .inr ⟨denom, escrow, rfl, hn, rfl⟩⟩

theorem debitCoin_ok {escrow : Option Address} (h : debitCoin env s src denom n escrow = .ok s') :
    n ≤ s.bank.balances src denom ∧ ((∃ dst, s' = s.setBank (s.bank.move src dst denom n)) ∨
        s' = s.setBank (s.bank.destroy src denom n)) := by
  cases escrow with
  | some dst =>
    obtain ⟨hn, rfl⟩ := sendCoins_ok h
    exact ⟨hn, .inl ⟨dst, rfl⟩⟩
  | none =>
    obtain ⟨hn, h⟩ := require_bind_ok.mp h
    exact ⟨hn, Or.inr (Except.ok.inj h).symm⟩

theorem onRecvPacket_ok (h : onRecvPacket env s p = .ok s') :
    s' = s ∨ ∃ n, convertCoin env s ⟨p.coin.denom, n, p.recipient, p.recipient⟩ = .ok s' := by
  unfold onRecvPacket at h
  dsimp only at h
  split_ifs at h
  iterate 4 exact Or.inl (Except.ok.inj h).symm
  split at h
  · exact Or.inl (Except.ok.inj h).symm
  split_ifs at h
  · exact Or.inl (Except.ok.inj h).symm
  · exact .inr ⟨_, h⟩

theorem convertCoinToERC20FromPacket_ok (h : convertCoinToERC20FromPacket env s p = .ok s') :
    s' = s ∨ ∃ n, convertCoin env s ⟨p.coin.denom, n, p.sender, p.sender⟩ = .ok s' := by
  unfold convertCoinToERC20FromPacket at h
  dsimp only at h
  split_ifs at h
  iterate 3 exact Or.inl (Except.ok.inj h).symm
  exact .inr ⟨_, h⟩

theorem packet_ok (h : recvPacket env s p = .ok s' ∨ refundPacket env s p = .ok s') :
    ∃ s₁ account, creditCoin env s p.coin p.amount account = .ok s₁ ∧
      (s' = s₁ ∨ ∃ n, convertCoin env s₁ ⟨p.coin.denom, n, account, account⟩ = .ok s') := by
  obtain h | h := h
  · obtain ⟨s₁, hcredit, h⟩ := bind_ok.mp h
    exact ⟨s₁, _, hcredit, onRecvPacket_ok h⟩
  · obtain ⟨s₁, hcredit, h⟩ := bind_ok.mp h
    exact ⟨s₁, _, hcredit, convertCoinToERC20FromPacket_ok h⟩

theorem ibcTransfer_ok {msg : MsgTransfer} (h : ibcTransfer env s msg = .ok s') :
    ∃ s₁ denom, debitCoin env s₁ msg.sender denom msg.amount msg.escrow = .ok s' ∧ (s₁ = s ∨
        ∃ contract n, convertERC20 env s ⟨contract, n, msg.sender, msg.sender⟩ = .ok s₁) := by
  unfold ibcTransfer at h
  split at h
  · exact ⟨s, _, h, .inl rfl⟩
  dsimp only at h
  split_ifs at h
  · exact ⟨s, _, h, .inl rfl⟩
  · exact ⟨s, _, h, .inl rfl⟩
  · obtain ⟨s₁, hconv, h⟩ := bind_ok.mp h
    exact ⟨s₁, _, h, .inr ⟨_, _, hconv⟩⟩

/-! ## Transactions -/

theorem actToken_ok (h : s.actToken contract act = some s') :
    ∃ t t', s.tokens contract = some t ∧ act t = some t' ∧ s' = s.setToken contract t' := by
  obtain ⟨t', ht', rfl⟩ := map_eq_some_iff.mp h
  obtain ⟨t, ht, hact⟩ := bind_eq_some_iff.mp ht'
  exact ⟨t, t', ht, hact, rfl⟩

theorem effect_registry {e : TokenEffect} {r : State × Log} (h : e.run env s = some r) :
    r.1.registry = s.registry := by
  cases e with
  | emit =>
    cases h
    rfl
  | transfer contract src dst n | mint contract dst n | burn contract src n =>
    obtain ⟨_, hact, rfl⟩ := map_eq_some_iff.mp h
    obtain ⟨_, _, -, -, rfl⟩ := actToken_ok hact
    rfl

theorem convertReceived_cases (env : Env) (s : State) (pair : TokenPair)
    (contract recipient : Address) (n : Nat) : convertReceived env s pair contract recipient n = s ∨
      ∃ s₁, takeTokens env s pair contract n = .ok s₁ ∧
        (convertReceived env s pair contract recipient n = s₁ ∨
          (n ≤ s₁.bank.balances env.moduleAddress pair.denom ∧
            convertReceived env s pair contract recipient n =
              s₁.setBank (s₁.bank.move env.moduleAddress recipient pair.denom n))) := by
  unfold convertReceived
  cases htake : takeTokens env s pair contract n with
  | error => exact .inl rfl
  | ok s₁ =>
    refine .inr ⟨s₁, rfl, ?_⟩
    dsimp only
    cases hsend : sendFromModule env s₁ recipient pair.denom n with
    | error => exact .inl rfl
    | ok =>
      obtain ⟨-, hn, rfl⟩ := sendFromModule_ok hsend
      exact .inr ⟨hn, rfl⟩

theorem processLog_cases (env : Env) (s : State) (log : Log) : processLog env s log = s ∨
      ∃ src dst n pair, log.topics = [env.transferID, src, dst] ∧
        transferredAmount log.data = some n ∧ s.pairOfContract log.address = some pair ∧
        .ofBytes dst = env.moduleAddress ∧ processLog env s log =
          convertReceived env s pair log.address (.ofBytes src) n := by
  unfold processLog
  split
  · rename_i eventID src dst htopics
    split
    · exact .inl rfl
    rename_i hevent
    rw [not_not] at hevent
    split
    · exact .inl rfl
    rename_i n hn
    split
    · exact .inl rfl
    rename_i pair hpair
    split
    · exact .inl rfl
    rename_i hdst
    rw [not_not] at hdst
    split
    · exact .inl rfl
    · exact .inr ⟨src, dst, n, pair, by rw [htopics, hevent], hn, hpair, hdst, rfl⟩
  · exact .inl rfl

theorem takeTokens_registry (h : takeTokens env s pair contract n = .ok s') :
    s'.registry = s.registry := by
  unfold takeTokens at h
  cases howner : pair.contractOwner with
  | ownerUnspecified =>
    rw [howner] at h
    cases h
  | ownerModule =>
    rw [howner] at h
    obtain ⟨-, rfl⟩ | ⟨_, _, -, -, rfl⟩ := callToken_ok h <;> rfl
  | ownerExternal =>
    rw [howner] at h
    obtain rfl := mintCoins_ok h
    rfl

theorem processLog_registry (env : Env) (s : State) (log : Log) :
    (processLog env s log).registry = s.registry := by
  obtain h | ⟨src, _, n, pair, -, -, -, -, h⟩ := processLog_cases env s log
  · rw [h]
  rw [h]
  obtain h | ⟨_, htake, h | ⟨-, h⟩⟩ :=
    convertReceived_cases env s pair log.address (.ofBytes src) n
  · rw [h]
  · rw [h, takeTokens_registry htake]
  · rw [h, ← takeTokens_registry htake]
    rfl

theorem processLogs_registry (env : Env) (s : State) (logs : List Log) :
    (logs.foldl (processLog env) s).registry = s.registry := by
  induction logs generalizing s with
  | nil => rfl
  | cons _ _ ih => rw [List.foldl_cons, ih, processLog_registry]

theorem postTxProcessing_registry (env : Env) (s : State) (logs : List Log) :
    (postTxProcessing env s logs).registry = s.registry := by
  unfold postTxProcessing
  split
  · rfl
  · exact processLogs_registry env s logs

end HyperPax.Erc20
