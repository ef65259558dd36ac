/-
  Evm/Backend.lean --- the EVM keeper's side of accounts: auth, bank, storage, code.

  Source: x/evm/keeper/{statedb,keeper}.go.

  The StateDB reads accounts through `getAccount` and writes them back through
  `setAccount` and `deleteAccount`.  Balances belong to the bank, so writing one
  back means minting or burning the difference between the written value and what the
  bank then holds.  The model is one denomination, the EVM's.
-/
import HyperPax.Base.Bank

set_option autoImplicit false

namespace HyperPax.Evm

open Lib Action Function

/-! ## Accounts and stores -/

/-- `common.Hash`: storage keys, storage values and code hashes. -/
abbrev Hash : Type := BitVec 256

/-- The Keccak-256 hash of no bytes. -/
def emptyCodeHash : Hash :=
  0xc5d2460186f7233c927e7db2dcc703c0e500b653ca82273b7bfad8045d85a470

/-- `statedb.Account`.  The balance is a `big.Int`: nothing stops it from going below
zero inside the StateDB. -/
structure Account where
  nonce : UInt64
  balance : Int
  codeHash : Hash
deriving DecidableEq

/-- What the auth module stores: the sequence, and the code hash when the account is
an `EthAccountI`. -/
structure AuthAccount where
  sequence : UInt64
  codeHash : Option Hash
deriving DecidableEq

/-- `NewAccountWithAddress`: a fresh Ethereum account. -/
def AuthAccount.fresh : AuthAccount := ⟨0, some emptyCodeHash⟩

/-- The stores the keeper reads and writes. -/
structure Backend where
  accounts : Address → Option AuthAccount
  bank : Ledger
  supply : Int
  storage : Address → Hash → Hash
  code : Hash → Option (List UInt8)

/-- The dependencies of the keeper: here only the module account that mints and
burns. -/
structure Keeper where
  moduleAccount : Address

/-- `GetAccount`: no auth account, no account, whatever the bank holds. -/
def Backend.getAccount (b : Backend) (a : Address) : Option Account :=
  (b.accounts a).map fun acct =>
    { nonce := acct.sequence
      balance := b.bank a
      codeHash := acct.codeHash.getD emptyCodeHash }

/-! ## Writing back -/

/-- Why a write-back failed. -/
inductive BackendError where
  | bank (cause : BankError)
  | invalidAccount (account : Address)
deriving DecidableEq

/-- A bank send within the backend.  The bank opens an account for a recipient that has
none. -/
def send (refuses : Refusal) (src dst : Address) (n : Nat) : Action Backend BackendError Unit := do
  Action.zoom Backend.bank (fun b l => { b with bank := l }) .bank (sendCoins refuses src dst n)
  .modify fun b =>
    { b with accounts := update b.accounts dst (some ((b.accounts dst).getD .fresh)) }

/-- `MintCoins` into the module account. -/
def mintCoins (k : Keeper) (n : Nat) : Action Backend BackendError Unit :=
  .modify fun b =>
    { b with
      bank := update b.bank k.moduleAccount (b.bank k.moduleAccount + n)
      supply := b.supply + n }

/-- `BurnCoins` out of the module account. -/
def burnCoins (k : Keeper) (n : Nat) : Action Backend BackendError Unit := do
  let held ← .gets fun b => b.bank k.moduleAccount
  .rejectIf (held < n) (.bank (.insufficientFunds k.moduleAccount n))
  .modify fun b =>
    { b with
      bank := update b.bank k.moduleAccount (b.bank k.moduleAccount - n)
      supply := b.supply - n }

/-- `SetBalance`: mint or burn the difference. -/
def setBalance (k : Keeper) (refuses : Refusal) (a : Address) (amount : Int) :
    Action Backend BackendError Unit := do
  let balance ← .gets fun b => b.bank a
  let delta := amount - (balance : Int)
  if 0 < delta then do
    mintCoins k delta.toNat
    send refuses k.moduleAccount a delta.toNat
  else if delta < 0 then do
    send refuses a k.moduleAccount (-delta).toNat
    burnCoins k (-delta).toNat
  else pure ()

/-- The auth account under new values; only an `EthAccountI` keeps a code hash. -/
def AuthAccount.write (acct : AuthAccount) (account : Account) : AuthAccount where
  sequence := account.nonce
  codeHash := acct.codeHash.map fun _ => account.codeHash

/-- `SetAccount`. -/
def setAccount (k : Keeper) (refuses : Refusal) (a : Address) (account : Account) :
    Action Backend BackendError Unit := do
  .modify fun b =>
    { b with
      accounts := update b.accounts a
        (some (((b.accounts a).getD .fresh).write account)) }
  setBalance k refuses a account.balance

/-- `SetCode`: empty code is deleted. -/
def setCode (codeHash : Hash) (code : List UInt8) : Action Backend BackendError Unit :=
  .modify fun b =>
    { b with code := update b.code codeHash (if code = [] then none else some code) }

/-- `DeleteAccount`. -/
def deleteAccount (k : Keeper) (refuses : Refusal) (a : Address) :
    Action Backend BackendError Unit := do
  let acct ← .gets fun b => b.accounts a
  match acct with
  | none => pure ()
  | some acct => do
    .rejectIf (acct.codeHash = none) (.invalidAccount a)
    setBalance k refuses a 0
    .modify fun b =>
      { b with
        storage := update b.storage a fun _ => 0
        accounts := update b.accounts a none }

/-! ## What the writes do -/

theorem send_cases (refuses : Refusal) (src dst : Address) (n : Nat) (b : Backend) :
    (∃ e, (send refuses src dst n).run b = (b, .error e)) ∨
      (n ≤ b.bank src ∧ ∃ accounts, (send refuses src dst n).run b =
          ({ b with bank := b.bank.transfer src dst n, accounts := accounts }, .ok ())) := by
  rcases sendCoins_cases refuses src dst n b.bank with ⟨-, e, he⟩ | ⟨-, hle, hok⟩
  · exact .inl ⟨.bank e, run_bind_of_error (run_zoom_of_error (s := b) _ _ _ he)⟩
  · exact .inr ⟨hle, _, run_bind_of_ok (run_zoom_of_ok (s := b) _ _ _ hok)⟩

theorem transfer_minted (l : Ledger) (m a x : Address) (n : Nat) :
    Ledger.transfer (update l m (l m + n)) m a n x = if x = a then l a + n else l x := by
  rw [Ledger.transfer_apply]
  by_cases hxa : x = a <;> by_cases hxm : x = m
  · subst hxa hxm
    simp
  · subst hxa
    simp [hxm]
  · subst hxm
    simp [hxa]
  · simp [hxa, hxm]

theorem transfer_burned (l : Ledger) (m a x : Address) {n : Nat} (h : n ≤ l a) :
    update (l.transfer a m n) m (l.transfer a m n m - n) x = if x = a then l a - n else l x := by
  rw [update_apply, Ledger.transfer_apply, Ledger.transfer_apply]
  by_cases hxa : x = a <;> by_cases hxm : x = m
  · subst hxa hxm
    simp only [if_true]
    omega
  · subst hxa
    simp [hxm]
  · subst hxm
    simp [hxa]
  · simp [hxa, hxm]

variable {k : Keeper} {refuses : Refusal} {a : Address} {b b' : Backend}

theorem setBalance_ok {amount : Int} (h : (setBalance k refuses a amount).run b = (b', .ok ())) :
    (∀ x, (b'.bank x : Int) = if x = a then amount else b.bank x) ∧
      b'.supply = b.supply + (amount - b.bank a) ∧ b'.storage = b.storage ∧ b'.code = b.code := by
  unfold setBalance at h
  rw [run_gets_bind] at h
  dsimp only at h
  split at h
  · rename_i hpos
    rw [mintCoins, run_modify_bind] at h
    rcases send_cases refuses k.moduleAccount a (amount - (b.bank a : Int)).toNat
      { b with
        bank := update b.bank k.moduleAccount
          (b.bank k.moduleAccount + (amount - (b.bank a : Int)).toNat)
        supply := b.supply + ((amount - (b.bank a : Int)).toNat : Int) } with
      ⟨e, he⟩ | ⟨-, accounts, hok⟩
    · rw [he] at h
      cases h
    rw [hok, Prod.mk.injEq] at h
    obtain ⟨rfl, -⟩ := h
    refine ⟨?_, by dsimp only; omega, rfl, rfl⟩
    intro x
    dsimp only
    rw [transfer_minted]
    split <;> omega
  split at h
  · rename_i hneg
    rcases send_cases refuses a k.moduleAccount (-(amount - (b.bank a : Int))).toNat b with
      ⟨_, he⟩ | ⟨hle, _, hok⟩
    · rw [run_bind_of_error he] at h
      cases h
    rw [run_bind_of_ok hok, burnCoins, run_gets_bind, run_rejectIf_bind] at h
    split at h
    · cases h
    rw [run_modify, Prod.mk.injEq] at h
    obtain ⟨rfl, -⟩ := h
    refine ⟨?_, by dsimp only; omega, rfl, rfl⟩
    intro x
    dsimp only
    rw [transfer_burned _ _ _ _ hle]
    split <;> omega
  · rw [run_pure, Prod.mk.injEq] at h
    obtain ⟨rfl, -⟩ := h
    refine ⟨?_, by omega, rfl, rfl⟩
    intro _
    split
    · rename_i hx
      subst hx
      omega
    · rfl

theorem setAccount_ok {account : Account}
    (h : (setAccount k refuses a account).run b = (b', .ok ())) :
    (∀ x, (b'.bank x : Int) = if x = a then account.balance else b.bank x) ∧
      b'.supply = b.supply + (account.balance - b.bank a) ∧
      b'.storage = b.storage ∧ b'.code = b.code := by
  unfold setAccount at h
  rw [run_modify_bind] at h
  obtain ⟨hbank, hsupply, hstorage, hcode⟩ := setBalance_ok h
  exact ⟨hbank, hsupply, hstorage, hcode⟩

/-! ## The code store -/

/-- The code store is left alone. -/
def SameCode (b b' : Backend) : Prop := b'.code = b.code

theorem SameCode.refl (b : Backend) : SameCode b b := Eq.refl _

theorem SameCode.trans (b b' b'' : Backend) (h : SameCode b b') (h' : SameCode b' b'') :
    SameCode b b'' := Eq.trans h' h

theorem keeps_code_send (refuses : Refusal) (src dst : Address) (n : Nat) :
    (send refuses src dst n).Keeps SameCode :=
by
  have hbank : (sendCoins refuses src dst n).Keeps fun _ _ => True := fun _ => trivial
  refine .bind .trans (.zoom _ ?_ hbank) fun _ => .modify fun b => .refl b
  exact fun b _ _ => .refl b

theorem keeps_code_setBalance (k : Keeper) (refuses : Refusal) (a : Address) (amount : Int) :
    (setBalance k refuses a amount).Keeps SameCode := by
  refine .bind .trans (.gets .refl _) fun balance => ?_
  dsimp only
  split
  · exact .bind .trans (.modify fun _ => rfl) fun _ => keeps_code_send _ _ _ _
  split
  · refine .bind .trans (keeps_code_send _ _ _ _) fun _ => ?_
    refine .bind .trans (.gets .refl _) fun held => ?_
    exact .bind .trans (.rejectIf .refl _ _) fun _ => .modify fun _ => rfl
  · exact .pure .refl ()

theorem keeps_code_setAccount (k : Keeper) (refuses : Refusal) (a : Address) (account : Account) :
    (setAccount k refuses a account).Keeps SameCode :=
  .bind .trans (.modify fun _ => rfl) fun _ => keeps_code_setBalance _ _ _ _

theorem keeps_code_deleteAccount (k : Keeper) (refuses : Refusal) (a : Address) :
    (deleteAccount k refuses a).Keeps SameCode := by
  refine .bind .trans (.gets .refl _) fun acct => ?_
  cases acct with
  | none => exact .pure .refl ()
  | some =>
    refine .bind .trans (.rejectIf .refl _ _) fun _ => ?_
    exact .bind .trans (keeps_code_setBalance _ _ _ _) fun _ => .modify fun _ => rfl

/-! ## Accounts of others -/

section

variable (k : Keeper) (a : Address)

/-- Accounts stay as they are, except that `a` and the module account may be opened. -/
def OnlyOpens (b b' : Backend) : Prop :=
  ∀ x, b'.accounts x = b.accounts x ∨
    (b.accounts x = none ∧ b'.accounts x = some .fresh ∧ (x = a ∨ x = k.moduleAccount))

theorem OnlyOpens.refl (b : Backend) : OnlyOpens k a b b := fun _ => .inl rfl

theorem OnlyOpens.trans (b b' b'' : Backend) (h : OnlyOpens k a b b') (h' : OnlyOpens k a b' b'') :
    OnlyOpens k a b b'' := by
  intro x
  rcases h' x with hsame' | ⟨hnone', hfresh', hx'⟩
  · rw [hsame']
    exact h x
  rcases h x with hsame | ⟨-, hfresh, -⟩
  · rw [hsame] at hnone'
    exact .inr ⟨hnone', hfresh', hx'⟩
  · rw [hfresh] at hnone'
    cases hnone'

theorem keeps_opens_send (refuses : Refusal) (src : Address) {dst : Address}
    (hdst : dst = a ∨ dst = k.moduleAccount) (n : Nat) :
    (send refuses src dst n).Keeps (OnlyOpens k a) := by
  have hbank : (sendCoins refuses src dst n).Keeps fun _ _ => True := fun _ => trivial
  refine .bind (.trans k a) (.zoom _ ?_ hbank) fun _ => .modify ?_
  · exact fun b _ _ => .refl k a b
  intro b x
  by_cases hx : x = dst
  · subst hx
    cases hacc : b.accounts x with
    | none => exact .inr ⟨rfl, by simp, hdst⟩
    | some => exact .inl (by simp)
  · exact .inl (by simp [hx])

theorem keeps_opens_setBalance (refuses : Refusal) (amount : Int) :
    (setBalance k refuses a amount).Keeps (OnlyOpens k a) := by
  refine .bind (.trans k a) (.gets (.refl k a) _) fun balance => ?_
  dsimp only
  split
  · exact .bind (.trans k a) (.modify fun b => .refl k a b) fun _ =>
      keeps_opens_send k a refuses _ (.inl rfl) _
  split
  · refine .bind (.trans k a) (keeps_opens_send k a refuses _ (.inr rfl) _) fun _ => ?_
    refine .bind (.trans k a) (.gets (.refl k a) _) fun held => ?_
    exact .bind (.trans k a) (.rejectIf (.refl k a) _ _) fun _ =>
      .modify fun b => .refl k a b
  · exact .pure (.refl k a) ()

end

variable {k : Keeper} {refuses : Refusal} {a : Address} {b b' : Backend}

variable (k) in
/-- The account stays as it is, or is the module account and is opened. -/
def OpensModule (b b' : Backend) (x : Address) : Prop :=
  b'.accounts x = b.accounts x ∨
    (b.accounts x = none ∧ b'.accounts x = some .fresh ∧ x = k.moduleAccount)

theorem setAccount_accounts {account : Account}
    (h : (setAccount k refuses a account).run b = (b', .ok ())) :
    b'.accounts a = some (((b.accounts a).getD .fresh).write account) ∧
      ∀ x, x ≠ a → OpensModule k b b' x := by
  unfold setAccount at h
  rw [run_modify_bind] at h
  have hopens := keeps_opens_setBalance k a refuses account.balance
    { b with
      accounts := update b.accounts a
        (some (((b.accounts a).getD .fresh).write account)) }
  rw [h] at hopens
  constructor
  · rcases hopens a with hsame | ⟨hnone, -⟩
    · rw [hsame]
      exact update_self ..
    · simp at hnone
  intro x hx
  rcases hopens x with hsame | ⟨hnone, hfresh, hself⟩
  · exact .inl (hsame.trans (update_of_ne hx ..))
  dsimp only at hnone
  rw [update_of_ne hx] at hnone
  exact .inr ⟨hnone, hfresh, hself.resolve_left hx⟩

theorem deleteAccount_ok (h : (deleteAccount k refuses a).run b = (b', .ok ())) :
    (∀ x, x ≠ a → b'.bank x = b.bank x ∧ b'.storage x = b.storage x ∧ OpensModule k b b' x) ∧
      b'.accounts a = none ∧ b'.code = b.code := by
  unfold deleteAccount at h
  rw [run_gets_bind] at h
  cases hacct : b.accounts a with
  | none =>
    rw [hacct] at h
    cases h
    exact ⟨fun x _ => ⟨rfl, rfl, .inl rfl⟩, hacct, rfl⟩
  | some =>
    rw [hacct] at h
    obtain ⟨-, h⟩ := rejectIf_bind_ok.mp h
    obtain ⟨_, ⟨⟩, hbal, hmodify⟩ := run_bind_ok.mp h
    rw [run_modify] at hmodify
    cases hmodify
    obtain ⟨hbank, -, hstorage, hcode⟩ := setBalance_ok hbal
    have hopens := keeps_opens_setBalance k a refuses 0 b
    rw [hbal] at hopens
    refine ⟨?_, by simp, hcode⟩
    intro x hx
    refine ⟨?_, ?_, ?_⟩
    · have hx' := hbank x
      rw [if_neg hx] at hx'
      exact Int.ofNat_inj.mp hx'
    · dsimp only
      rw [update_of_ne hx, hstorage]
    unfold OpensModule
    dsimp only
    rw [update_of_ne hx]
    rcases hopens x with hsame | ⟨hnone, hfresh, hself⟩
    · exact .inl hsame
    · exact .inr ⟨hnone, hfresh, hself.resolve_left hx⟩

end HyperPax.Evm
