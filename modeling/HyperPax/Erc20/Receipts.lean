/-
  Erc20/Receipts.lean --- transactions and the hook on their receipts keep the backing.

  A receipt is processed after the whole transaction.  While the body runs, what its logs
  report as sent to the module is a credit: the module holds that many more tokens than its
  coins need.  The hook goes through the logs and spends the credit of each.
-/
import HyperPax.Erc20.Backing

set_option autoImplicit false

namespace HyperPax.Erc20

open Lib List Option Token

variable {env : Env} {s s' : State} {log : Log} {id : Key} {p : TokenPair}
  {credit credit' : Address → Nat} {contract : Address} {t t' : Token} {n : Nat} {e : TokenEffect}
  {effects : List Effect}

/-! ## Logs -/

/-- The tokens of a contract that a log reports as sent to the module. -/
def Log.received (env : Env) (log : Log) (contract : Address) : Nat :=
  match log.topics with
  | [eventID, _, dst] =>
    if eventID = env.transferID ∧ .ofBytes dst = env.moduleAddress ∧
        log.address = contract then
      (transferredAmount log.data).getD 0
    else 0
  | _ => 0

/-- The tokens of a contract that logs report as sent to the module. -/
def received (env : Env) (logs : List Log) (contract : Address) : Nat :=
  (logs.map fun log => log.received env contract).sum

/-- What a standard token does in a transaction of a user: nobody spends the module's tokens, the
module's tokens are minted by the module only, and no other log looks like a transfer. -/
def TokenEffect.Standard (env : Env) (s : State) : TokenEffect → Prop
  | .transfer _ src _ _ => src ≠ env.moduleAddress
  | .mint contract _ _ => ∀ p ∈ s.pairOfContract contract, p.contractOwner ≠ .ownerModule
  | .burn _ src _ => src ≠ env.moduleAddress
  | .emit log => log.topics.head? ≠ some env.transferID ∨ s.pairOfContract log.address = none

instance (env : Env) (s : State) (e : TokenEffect) : Decidable (e.Standard env s) := by
  unfold TokenEffect.Standard
  split <;> infer_instance

/-- What is assumed of a transaction: standard tokens, and that the module sends no packets. -/
def Effect.Standard (env : Env) (s : State) : Effect → Prop
  | .token e => e.Standard env s
  | .transferICS20 msg => msg.sender ≠ env.moduleAddress

instance (env : Env) (s : State) (e : Effect) : Decidable (e.Standard env s) := by
  unfold Effect.Standard
  split <;> infer_instance

/-- An effect of the transaction's own StateDB. -/
def Effect.Own (e : Effect) : Prop := ∃ effect, e = .token effect

instance (e : Effect) : Decidable e.Own :=
  match e with
  | .token effect => isTrue ⟨effect, rfl⟩
  | .transferICS20 _ => isFalse nofun

theorem transferredAmount_word_le (n : Nat) : (transferredAmount (Abi.word n)).getD 0 ≤ n := by
  have hread : Abi.readWord (Abi.word n) = some (n % 256 ^ 32) := by
    rw [Abi.readWord, if_pos (Abi.length_word n).ge, take_of_length_le (Abi.length_word n).le,
      Abi.word, Abi.fromBigEndian_bigEndian]
  rw [transferredAmount, hread, bind_some]
  split_ifs
  · exact Nat.mod_le _ _
  · exact Nat.zero_le _

theorem ofBytes_topic (a : Address) : .ofBytes (.replicate 12 0 ++ a.bytes) = a := by
  refine Address.ext ?_
  simp [Address.ofBytes, a.length_bytes]

theorem received_transferLog_le (env : Env) (contract src dst a : Address) (n : Nat) :
    (transferLog env contract src dst n).received env a ≤
      if dst = env.moduleAddress ∧ contract = a then n else 0 := by
  simp only [transferLog, Log.received, ofBytes_topic, true_and]
  split_ifs
  · exact transferredAmount_word_le n
  · exact Nat.le_refl _

theorem received_of_standard (hshape : Shape env s) (h : (TokenEffect.emit log).Standard env s)
    (hp : s.registry.pairs[id]? = some p) : log.received env p.erc20Address = 0 := by
  unfold Log.received
  split
  · rename_i eventID src dst htopics
    refine if_neg ?_
    rintro ⟨rfl, -, haddr⟩
    obtain hhead | hnone := h
    · rw [htopics] at hhead
      exact hhead rfl
    rw [haddr, State.pairOfContract] at hnone
    have hentry := hshape.sound.contracts.get hp
    rw [TokenPair.contractKey] at hentry
    rw [hentry, bind_some, hp] at hnone
    cases hnone
  · rfl

theorem Backed.setToken_unregistered (h : Backed env credit s)
    (hne : ∀ (id : Key) (p : TokenPair), s.registry.pairs[id]? = some p → p.erc20Address ≠ contract)
    (hother : ∀ a, a ≠ contract → credit' a ≤ credit a) (t : Token) :
    Backed env credit' (s.setToken contract t) := by
  constructor
  · intro d
    have hsame : (s.setToken contract t).issued d = s.issued d := by
      refine KVStore.weight_congr fun id p hp => ?_
      simp only [State.supplyAt, setToken_of_ne s t (hne id p hp)]
    rw [hsame]
    exact h.escrow d
  · intro id p hp howner
    have hsame : (s.setToken contract t).heldBy env.moduleAddress p.erc20Address =
        s.heldBy env.moduleAddress p.erc20Address := by
      simp only [State.heldBy, setToken_of_ne s t (hne id p hp)]
    rw [hsame]
    exact (Nat.add_le_add_left (hother _ (hne id p hp)) _).trans (h.custody id p hp howner)

section

variable (hshape : Shape env s) (h : Backed env credit s) (ht : s.tokens contract = some t)
  (hsupply : ∀ p ∈ s.pairOfContract contract, p.contractOwner = .ownerModule →
    t'.totalSupply ≤ t.totalSupply)

include hshape h ht hsupply

theorem Backed.setToken
    (hheld : t.balances env.moduleAddress + credit' contract ≤
      t'.balances env.moduleAddress + credit contract)
    (hother : ∀ a, a ≠ contract → credit' a ≤ credit a) :
    Backed env credit' (s.setToken contract t') := by
  cases hpair : s.pairOfContract contract with
  | some p =>
    obtain ⟨id, hid, hp⟩ := bind_eq_some_iff.mp hpair
    obtain ⟨_, hq, hkey⟩ := hshape.sound.contracts.linked _ id hid
    obtain rfl := Registry.eq_of_get hp hq rfl
    obtain rfl : p.erc20Address = contract := Address.ext hkey
    refine h.convert hshape hp ht ?_ ?_ ?_ (b := s.bank)
    · intro _
      refine Nat.add_le_add_right ?_ _
      unfold TokenPair.claim
      split_ifs with hclaim
      · exact hsupply p hpair hclaim.1
      · exact Nat.le_refl _
    · intro _ _
      omega
    · intro a ha
      exact Nat.add_le_add_left (hother a ha) _
  | none =>
    have hne : ∀ (id : Key) (p : TokenPair), s.registry.pairs[id]? = some p →
        p.erc20Address ≠ contract := by
      rintro _ _ hp rfl
      have hentry := hshape.sound.contracts.get hp
      rw [TokenPair.contractKey] at hentry
      rw [State.pairOfContract, hentry, bind_some, hp] at hpair
      cases hpair
    exact h.setToken_unregistered hne hother t'

theorem Backed.transferLog {src dst : Address}
    (hheld : t.balances env.moduleAddress + (if dst = env.moduleAddress then n else 0) ≤
      t'.balances env.moduleAddress) :
    Backed env (fun a => credit a + (Erc20.transferLog env contract src dst n).received env a)
      (s.setToken contract t') := by
  refine h.setToken hshape ht hsupply ?_ ?_
  · have hlog := received_transferLog_le env contract src dst contract n
    simp only [and_true] at hlog
    omega
  intro a ha
  have hlog := received_transferLog_le env contract src dst a n
  rw [if_neg fun hand => ha hand.2.symm] at hlog
  omega

end

theorem effect_backed (hguard : env.Guarded) (hshape : Shape env s) (h : Backed env credit s)
    (hstd : e.Standard env s) {r : State × Log} (hrun : e.run env s = some r) :
    Shape env r.1 ∧ Backed env (fun a => credit a + r.2.received env a) r.1 := by
  cases e with
  | emit =>
    cases hrun
    refine ⟨hshape, h.escrow, ?_⟩
    intro id p hp howner
    rw [received_of_standard hshape hstd hp]
    exact h.custody id p hp howner
  | transfer contract =>
    obtain ⟨s₁, hact, rfl⟩ := map_eq_some_iff.mp hrun
    obtain ⟨t, t', ht, htransfer, rfl⟩ := actToken_ok hact
    obtain ⟨-, hsupply, hbals⟩ := transfer_some htransfer
    refine ⟨hshape.setToken contract t', h.transferLog hshape ht (fun _ _ _ => hsupply.le) ?_⟩
    rw [hbals, Ledger.transfer_apply, if_neg (Ne.symm hstd)]
    split_ifs with h₁ h₂ h₂
    · exact Nat.le_refl _
    · exact absurd h₁.symm h₂
    · exact absurd h₂.symm h₁
    · exact Nat.le_refl _
  | mint contract =>
    obtain ⟨s₁, hact, rfl⟩ := map_eq_some_iff.mp hrun
    obtain ⟨t, t', ht, hmint, rfl⟩ := actToken_ok hact
    obtain ⟨-, hbal⟩ := mint_some (a := env.moduleAddress) hmint
    refine ⟨hshape.setToken contract t', h.transferLog hshape ht ?_ ?_⟩
    · intro p hp howner
      exact absurd howner (hstd p hp)
    rw [hbal]
    refine Nat.add_le_add_left ?_ _
    split_ifs with h₁ h₂ h₂
    · exact Nat.le_refl _
    · exact absurd h₁.symm h₂
    · exact Nat.zero_le _
    · exact Nat.le_refl _
  | burn contract =>
    obtain ⟨_, hact, rfl⟩ := map_eq_some_iff.mp hrun
    obtain ⟨_, t', ht, hburn, rfl⟩ := actToken_ok hact
    obtain ⟨_, hbal⟩ := burn_some (a := env.moduleAddress) hburn
    refine ⟨hshape.setToken contract t', h.transferLog hshape ht ?_ ?_⟩
    · intro _ _ _
      omega
    · rw [if_neg (Ne.symm hguard.ne_zero), hbal (Ne.symm hstd)]
      exact Nat.le_refl _

theorem standard_of_registry (hreg : s'.registry = s.registry) (h : e.Standard env s) :
    e.Standard env s' := by
  have hpair : s'.pairOfContract = s.pairOfContract := by
    funext contract
    rw [State.pairOfContract, State.pairOfContract, hreg]
  cases e with
  | transfer | burn => exact h
  | mint contract dst n | emit log =>
    unfold TokenEffect.Standard
    rw [hpair]
    exact h

theorem runEffects_backed (hguard : env.Guarded) {b : Body} {r : Body × List Log}
    (hshape : Shape env b.view) (h : Backed env credit b.view)
    (hstd : ∀ e ∈ effects, e.Standard env b.view) (hown : ∀ e ∈ effects, e.Own)
    (hrun : runEffects env b effects = some r) :
    Shape env r.1.view ∧ Backed env (fun a => credit a + received env r.2 a) r.1.view := by
  induction effects generalizing b r credit with
  | nil =>
    cases hrun
    exact ⟨hshape, h⟩
  | cons e effects ih =>
    obtain ⟨_, hone, hrun⟩ := bind_eq_some_iff.mp hrun
    obtain ⟨_, hrest, rfl⟩ := map_eq_some_iff.mp hrun
    cases e with
    | transferICS20 =>
      obtain ⟨_, hsame⟩ := hown _ mem_cons_self
      cases hsame
    | token e =>
      obtain ⟨r₁, heffect, rfl⟩ := map_eq_some_iff.mp hone
      obtain ⟨hshape₁, h₁⟩ := effect_backed hguard hshape h (hstd _ mem_cons_self) heffect
      have hstd₁ : ∀ e ∈ effects, e.Standard env r₁.1 := by
        intro e he
        have hbefore := hstd e (mem_cons_of_mem _ he)
        cases e with
        | token => exact standard_of_registry (effect_registry heffect) hbefore
        | transferICS20 => exact hbefore
      obtain ⟨hshape₂, h₂⟩ :=
        ih hshape₁ h₁ hstd₁ (fun e he => hown e (mem_cons_of_mem _ he)) hrest
      refine ⟨hshape₂, h₂.mono fun a => ?_⟩
      simp only [received, map_append, sum_append, map_cons, map_nil, sum_cons, sum_nil]
      omega

theorem setToken_self_eq (ht : s.tokens contract = some t) : s.setToken contract t = s := by
  have hsame : Function.update s.tokens contract (some t) = s.tokens := by
    rw [← ht, Function.update_eq_self]
  rw [State.setToken, hsame]

variable (henv : env.Lawful)

include henv

/-- Tokens sent to the module are converted out of the credit of the log. -/
theorem convertReceived_backed (hshape : Shape env s) (h : Backed env credit s)
    (hp : s.registry.pairs[id]? = some p) (recipient : Address)
    (hcredit : credit' p.erc20Address + n ≤ credit p.erc20Address)
    (hother : ∀ a, credit' a ≤ credit a) :
    Shape env (convertReceived env s p p.erc20Address recipient n) ∧
      Backed env credit' (convertReceived env s p p.erc20Address recipient n) := by
  obtain ⟨t, ht⟩ := isSome_iff_exists.mp (hshape.contract id p hp)
  obtain hnone | ⟨_, htake, hpay⟩ :=
    convertReceived_cases env s p p.erc20Address recipient n
  · rw [hnone]
    exact ⟨hshape, h.mono hother⟩
  unfold takeTokens at htake
  cases howner : p.contractOwner with
  | ownerUnspecified =>
    rw [howner] at htake
    cases htake
  | ownerModule =>
    rw [howner] at htake
    obtain ⟨t', hburn, rfl⟩ := burnTokens_ok htake ht
    obtain ⟨hsupply, -⟩ := burn_some (a := recipient) hburn
    have hshape₁ := hshape.setToken p.erc20Address t'
    have hext : ∀ b : Bank, p.contractOwner = .ownerExternal →
        s.bank.supply p.denom + credit p.erc20Address ≤ t.balances env.moduleAddress →
        b.supply p.denom + credit' p.erc20Address ≤ t'.balances env.moduleAddress := by
      intro b hext
      rw [howner] at hext
      cases hext
    obtain hsame | ⟨-, hmove⟩ := hpay
    · rw [hsame]
      refine ⟨hshape₁, h.convert hshape hp ht ?_ (hext s.bank)
        (fun a _ => Nat.add_le_add_left (hother a) _) (b := s.bank)⟩
      intro d
      refine Nat.add_le_add_right ?_ _
      unfold TokenPair.claim
      split_ifs
      · omega
      · exact Nat.le_refl _
    · rw [hmove]
      refine ⟨hshape₁.setBank fun a _ => Nat.le_refl _, h.convert hshape hp ht
        (claim_burn howner hsupply s.bank recipient) (hext _)
        (fun a _ => Nat.add_le_add_left (hother a) _)⟩
  | ownerExternal =>
    rw [howner] at htake
    obtain rfl := mintCoins_ok htake
    have hsupply : ∀ a, a ≠ p.erc20Address →
        (s.bank.create env.moduleAddress p.denom n).supply (createDenom (env.addressString a)) =
          s.bank.supply (createDenom (env.addressString a)) := by
      intro a ha
      rw [Bank.supply_create, if_neg (hshape.denom_ne henv hp howner ha), Nat.add_zero]
    have hminted : (s.bank.create env.moduleAddress p.denom n).supply p.denom =
        s.bank.supply p.denom + n := by
      rw [Bank.supply_create, if_pos rfl]
    have hshape₁ : Shape env (s.setBank (s.bank.create env.moduleAddress p.denom n)) :=
      hshape.setBank fun a ha => (hsupply a (hshape.registered hp ha)).le
    -- the coins stay with the module or are paid out: the supply is the same
    have hbacked : ∀ b : Bank, b.supply = (s.bank.create env.moduleAddress p.denom n).supply →
        (∀ d, s.bank.balances env.moduleAddress d ≤ b.balances env.moduleAddress d) →
        Backed env credit' (s.setBank b) := by
      intro _ hb hescrow
      rw [← setToken_self_eq ht]
      refine h.convert hshape hp ht ?_ ?_ ?_
      · intro d
        exact Nat.add_le_add_left (hescrow d) _
      · intro _ _
        rw [hb, hminted]
        omega
      · intro a ha
        rw [hb, hsupply a ha]
        exact Nat.add_le_add_left (hother a) _
    obtain hsame | ⟨-, hmove⟩ := hpay
    · rw [hsame]
      refine ⟨hshape₁, hbacked _ rfl fun d => ?_⟩
      rw [Bank.balances_create]
      exact Nat.le_add_right _ _
    · rw [hmove]
      exact ⟨hshape₁.setBank fun a _ => Nat.le_refl _,
        hbacked _ rfl fun d => le_create_move s.bank recipient p.denom d n⟩

theorem processLog_backed (hshape : Shape env s)
    (h : Backed env (fun a => log.received env a + credit a) s) :
    Shape env (processLog env s log) ∧ Backed env credit (processLog env s log) := by
  obtain hsame | ⟨_, _, n, pair, htopics, hamount, hpair, hdst, hconv⟩ :=
    processLog_cases env s log
  · rw [hsame]
    exact ⟨hshape, h.mono fun a => Nat.le_add_left _ _⟩
  obtain ⟨id, hid, hp⟩ := bind_eq_some_iff.mp hpair
  obtain ⟨_, hq, hkey⟩ := hshape.sound.contracts.linked _ id hid
  obtain rfl := Registry.eq_of_get hp hq rfl
  have hcontr : pair.erc20Address = log.address := Address.ext hkey
  have hreceived : log.received env pair.erc20Address = n := by
    rw [Log.received, htopics]
    simp only [hdst, hcontr, and_self, if_true, hamount, getD_some]
  rw [hconv, ← hcontr]
  refine convertReceived_backed henv hshape h hp _ ?_ fun a => Nat.le_add_left _ _
  rw [hreceived, Nat.add_comm]

theorem processLogs_backed {logs : List Log} (hshape : Shape env s)
    (h : Backed env (fun a => credit a + received env logs a) s) :
    Shape env (logs.foldl (processLog env) s) ∧
      Backed env credit (logs.foldl (processLog env) s) := by
  induction logs generalizing s with
  | nil => exact ⟨hshape, h⟩
  | cons log logs ih =>
    have hfirst : Backed env
        (fun a => log.received env a + (credit a + received env logs a)) s := by
      refine h.mono fun a => ?_
      simp only [received, map_cons, sum_cons]
      omega
    obtain ⟨hshape₁, h₁⟩ := processLog_backed henv hshape hfirst
    exact ih hshape₁ h₁

theorem ethereumTx_solvent (hguard : env.Guarded) (h : Solvent env s)
    (hstd : ∀ e ∈ effects, e.Standard env s) (hown : ∀ e ∈ effects, e.Own)
    (htx : ethereumTx env s effects = some s') : Solvent env s' := by
  obtain ⟨_, hrun, rfl⟩ := map_eq_some_iff.mp htx
  obtain ⟨hshape, hbacked⟩ := runEffects_backed hguard h.shape h.backed hstd hown hrun
  unfold postTxProcessing
  split
  · exact ⟨hshape, hbacked.mono fun a => Nat.zero_le _⟩
  · obtain ⟨hshape', hbacked'⟩ := processLogs_backed henv hshape hbacked
    exact ⟨hshape', hbacked'⟩

end HyperPax.Erc20
