/-
  Cosmos/Mirror.lean --- when the StateDB still agrees with the bank after a call.

  The precompiles start from a StateDB that has just been written back.  Afterwards the
  StateDB agrees with the bank exactly when, for every account it has loaded, the
  payments of the call and its adjustment come to the same.
-/
import HyperPax.Cosmos.Sdk

set_option autoImplicit false

namespace HyperPax.Cosmos

open Lib Action

/-! ## Agreement -/

/-- Every account the StateDB has loaded has there the balance it has in the bank. -/
def Mirrored (s : Context) : Prop :=
  ∀ a o, s.db.stateObjects a = some o → o.account.balance = s.backend.bank a

/-- The StateDB has loaded the account. -/
def Cached (s : Context) (a : Address) : Prop :=
  (s.db.stateObjects a).isSome
deriving Decidable

/-- The condition on the adjusted account.  A caller that is not loaded yet is loaded with
the balance the payments have left it, or with zero if it has no account. -/
def Adjusts (s : Context) (ps : List (Payment Address)) (caller : Address) (n : Int) : Prop :=
  if Cached s caller then net ps caller = n
  else if (s.backend.accounts caller).isSome ∨ Receives ps caller then n = 0
  else n = s.backend.bank caller + net ps caller
deriving Decidable

/-- The payments and the adjustment come to the same for every loaded account. -/
def Balanced (s : Context) (ps : List (Payment Address)) (caller : Address)
    (adjust : Option Int) : Prop :=
  (∀ a, Cached s a → (adjust = none ∨ a ≠ caller) → net ps a = 0) ∧
    ∀ n ∈ adjust, Adjusts s ps caller n

section

variable {ps : List (Payment Address)} {caller : Address} {s s' : Context}

theorem cached_iff {a : Address} : Cached s a ↔ ∃ o, s.db.stateObjects a = some o := by
  unfold Cached
  rw [Option.isSome_iff_exists]

variable (h : Mirrored s)

include h

theorem mirrored_iff_of_unadjusted (hpaid : Settles ps caller none s s') :
    Mirrored s' ↔ ∀ a, Cached s a → net ps a = 0 := by
  have hdb : s'.db = s.db := hpaid.db
  constructor
  · intro h' a ha
    obtain ⟨o, ho⟩ := cached_iff.mp ha
    have hbefore := h a o ho
    have hafter := h' a o (hdb ▸ ho)
    have hbank := hpaid.paid.bank a
    omega
  · intro hnet a o ho
    rw [hdb] at ho
    have hbank := hpaid.paid.bank a
    rw [hnet a (cached_iff.mpr ⟨o, ho⟩)] at hbank
    rw [h a o ho]
    omega

theorem getBalance_after (hpaid : Paid ps s.backend s'.backend) :
    s.db.getBalance s'.backend caller = if Cached s caller then (s.backend.bank caller : Int)
      else if (s.backend.accounts caller).isSome ∨ Receives ps caller then
        (s'.backend.bank caller : Int) else 0 := by
  split
  · rename_i hcached
    obtain ⟨o, ho⟩ := cached_iff.mp hcached
    rw [Evm.StateDB.getBalance_of_stateObjects _ _ _ ho, h caller o ho]
  rename_i hcached
  have hnone : s.db.stateObjects caller = none := by simpa [Cached] using hcached
  simp only [← hpaid.accounts caller]
  unfold Evm.StateDB.getBalance Evm.StateDB.find? Evm.Backend.getAccount
  rw [hnone]
  cases s'.backend.accounts caller with
  | none => simp
  | some => simp [Evm.newObject]

theorem mirrored_iff_of_adjusted {n : Int} (hpaid : Settles ps caller (some n) s s') : Mirrored s' ↔
      (∀ a, Cached s a → a ≠ caller → net ps a = 0) ∧ Adjusts s ps caller n := by
  have hwrites := s.db.writes_addBalance s'.backend caller n
  have hdb : s'.db = s.db.addBalance s'.backend caller n := hpaid.db
  rw [← hdb, getBalance_after h hpaid.paid] at hwrites
  obtain ⟨oc, hoc, hbal, -⟩ := hwrites.object
  have hbank := hpaid.paid.bank
  have hcaller : oc.account.balance = s'.backend.bank caller ↔ Adjusts s ps caller n := by
    have hbank := hbank caller
    unfold Adjusts
    rw [hbal]
    split
    · omega
    · split <;> omega
  constructor
  · intro h'
    refine ⟨?_, hcaller.mp (h' caller oc hoc)⟩
    intro a ha hne
    obtain ⟨o, ho⟩ := cached_iff.mp ha
    have hbefore := h a o ho
    have hafter := h' a o (by rw [hwrites.other a hne, ho])
    have hbank := hbank a
    omega
  · rintro ⟨hother, hadjusts⟩ a o ho
    by_cases hne : a = caller
    · subst hne
      rw [hoc, Option.some.injEq] at ho
      subst ho
      exact hcaller.mpr hadjusts
    rw [hwrites.other a hne] at ho
    have hbank := hbank a
    rw [hother a (cached_iff.mpr ⟨o, ho⟩) hne] at hbank
    rw [h a o ho]
    omega

theorem mirrored_iff_balanced {adjust : Option Int} (hpaid : Settles ps caller adjust s s') :
    Mirrored s' ↔ Balanced s ps caller adjust := by
  unfold Balanced
  cases adjust with
  | none =>
    rw [mirrored_iff_of_unadjusted h hpaid]
    simp
  | some =>
    rw [mirrored_iff_of_adjusted h hpaid]
    simp

end

/-! ## The next commit -/

variable {b b' : Evm.Backend} {a : Address} {k : Evm.Keeper} {refuses : Refusal}

theorem bank_eq_of_rewritten {n : Int}
    (h : ∀ x, (b'.bank x : Int) = if x = a then n else b.bank x) (hn : n = b.bank a) :
    b'.bank = b.bank := by
  funext x
  have hx := h x
  split at hx
  · rename_i hxa
    subst hxa
    omega
  · exact_mod_cast hx

theorem commit_object_of_agrees {o o' : Evm.StateObject} (hbal : o.account.balance = b.bank a)
    (hdead : o.suicided → o.account.balance = 0) (h : (o.commit k refuses a).run b = (b', .ok o')) :
    b'.bank = b.bank ∧ b'.supply = b.supply ∧ o'.account = o.account ∧
      o'.suicided = o.suicided := by
  by_cases hs : o.suicided
  · unfold Evm.StateObject.commit Evm.deleteAccount at h
    rw [if_pos hs] at h
    obtain ⟨b₁, ⟨⟩, hdelete, h⟩ := run_bind_ok.mp h
    rw [run_pure, Prod.mk.injEq, Except.ok.injEq] at h
    obtain ⟨rfl, rfl⟩ := h
    rw [run_gets_bind] at hdelete
    split at hdelete
    · rw [run_pure, Prod.mk.injEq] at hdelete
      rw [← hdelete.1]
      exact ⟨rfl, rfl, rfl, rfl⟩
    obtain ⟨-, hdelete⟩ := rejectIf_bind_ok.mp hdelete
    obtain ⟨b₂, ⟨⟩, hset, hmodify⟩ := run_bind_ok.mp hdelete
    rw [run_modify, Prod.mk.injEq] at hmodify
    rw [← hmodify.1]
    obtain ⟨hbank, hsupply, -, -⟩ := Evm.setBalance_ok hset
    have hzero : (0 : Int) = b.bank a := by rw [← hbal, hdead hs]
    exact ⟨bank_eq_of_rewritten hbank hzero, by dsimp only; omega, rfl, rfl⟩
  · have halive : o.suicided = false := by simpa using hs
    obtain ⟨hbank, _⟩ := Evm.StateObject.commit_ok halive h
    refine ⟨bank_eq_of_rewritten hbank hbal, by omega, ?_⟩
    unfold Evm.StateObject.commit at h
    rw [if_neg hs] at h
    obtain ⟨_, ⟨⟩, -, h⟩ := run_bind_ok.mp h
    obtain ⟨_, ⟨⟩, -, h⟩ := run_bind_ok.mp h
    obtain ⟨_, ⟨⟩, -, h⟩ := run_bind_ok.mp h
    rw [run_pure, Prod.mk.injEq, Except.ok.injEq] at h
    rw [← h.2]
    exact ⟨rfl, rfl⟩

/-- Every loaded object agrees with the bank, and a self-destructed one holds nothing. -/
def AllAgree (db : Evm.StateDB) (b : Evm.Backend) : Prop :=
  ∀ a o, db.stateObjects a = some o →
    o.account.balance = b.bank a ∧ (o.suicided → o.account.balance = 0)

theorem commitAll_of_allAgree {ds : List Address} {db db' : Evm.StateDB} (hagree : AllAgree db b)
    (h : (Evm.StateDB.commitAll k refuses ds).run (db, b) = ((db', b'), .ok ())) :
    b'.bank = b.bank ∧ b'.supply = b.supply := by
  induction ds generalizing db b with
  | nil =>
    rw [Evm.StateDB.commitAll, run_pure, Prod.mk.injEq, Prod.mk.injEq] at h
    rw [h.1.2]
    exact ⟨rfl, rfl⟩
  | cons a _ ih =>
    rw [Evm.StateDB.commitAll, run_gets_bind] at h
    split at h
    · exact ih hagree h
    rename_i o ho
    obtain ⟨hbal, hdead⟩ := hagree a o ho
    obtain ⟨_, o₁, hzoom, hrest⟩ := run_bind_ok.mp h
    obtain ⟨b₁, hcommit, rfl⟩ := run_zoom_ok.mp hzoom
    rw [run_modify_bind] at hrest
    obtain ⟨hbank₁, hsupply₁, hacc, hsuicided⟩ :=
      commit_object_of_agrees hbal hdead hcommit
    have hagree₁ : AllAgree (db.setStateObject a o₁) b₁ := by
      intro x ox hox
      rw [hbank₁]
      rw [Evm.StateDB.stateObjects_set] at hox
      split at hox
      · rename_i hx
        subst hx
        cases hox
        rw [hacc, hsuicided]
        exact ⟨hbal, hdead⟩
      · exact hagree x ox hox
    obtain ⟨hbank, hsupply⟩ := ih hagree₁ hrest
    exact ⟨hbank.trans hbank₁, hsupply.trans hsupply₁⟩

theorem commit_of_mirrored {k : Keeper} {env : Env} {s s' : Context} (h : Mirrored s)
    (hdead : ∀ a o, s.db.stateObjects a = some o → o.suicided → o.account.balance = 0)
    (hcommit : (commit k env).run s = (s', .ok ())) :
    s'.backend.bank = s.backend.bank ∧ s'.backend.supply = s.backend.supply := by
  obtain ⟨⟨_, _⟩, hinner, rfl⟩ := run_zoom_ok.mp hcommit
  unfold Evm.StateDB.commit at hinner
  rw [run_gets_bind] at hinner
  exact commitAll_of_allAgree (fun a o ho => ⟨h a o ho, hdead a o ho⟩) hinner

/-! ## The main result -/

/-- The condition on a call: for every account the StateDB has loaded, what the call pays in
the bank and what it adjusts in the StateDB come to the same. -/
def InStep (k : Keeper) (env : Env) (s : Context) (c : Call) : Prop :=
  Balanced s (payments k env s.staking s.backend.bank c.method) c.caller
    (adjustment env s.staking c)

/-- The message servers pay as documented.  From a StateDB that agrees with the bank after the
write-back at the start of `Run`, a call that succeeds leaves them in agreement exactly when it
is in step; the next commit then neither mints nor burns. -/
theorem mirrored_run_iff {k : Keeper} {modules : Modules} {env : Env} {c : Call}
    {s s₁ s' : Context} (hmodules : modules.Documented k env)
    (hcommit : (commit k env).run s = (s₁, .ok ())) (hmirrored : Mirrored s₁)
    (hrun : (run k modules env c).run s = (s', .ok ())) : (Mirrored s' ↔ InStep k env s₁ c) ∧
      (InStep k env s₁ c →
        (∀ a o, s'.db.stateObjects a = some o → o.suicided → o.account.balance = 0) →
        ∀ env' s'', (commit k env').run s' = (s'', .ok ()) →
          s''.backend.bank = s'.backend.bank ∧ s''.backend.supply = s'.backend.supply) := by
  obtain ⟨-, hrun⟩ := rejectIf_bind_ok.mp hrun
  rw [run_bind_of_ok hcommit] at hrun
  have hiff : Mirrored s' ↔ InStep k env s₁ c :=
    mirrored_iff_balanced hmirrored (execute_ok hmodules hrun)
  refine ⟨hiff, ?_⟩
  intro hstep hdead _ _ hcommit'
  exact commit_of_mirrored (hiff.mpr hstep) hdead hcommit'

/-! ## Two calls -/

/-- A contract that holds 100 coins, is loaded in the StateDB, and may have a delegation with
pending rewards. -/
def exampleContext (pending : Option Coins) : Context where
  backend :=
    { accounts := fun _ => some .fresh
      bank := fun a =>
        if a = .ofNat 0x11 then 100 else if a = .ofNat 0xd1 then 500 else 0
      supply := 600
      storage := fun _ _ => 0
      code := fun _ => none }
  db :=
    { Evm.StateDB.new ⟨0, 0, 0, 0⟩ with
      stateObjects := fun a =>
        if a = Address.ofNat 0x11 then some (Evm.newObject ⟨1, 100, Evm.emptyCodeHash⟩) else none }
  staking :=
    { validators := [.ofNat 0x77]
      nodup := by simp
      status := fun _ => .bonded
      pending := fun d v =>
        if d = .ofNat 0x11 ∧ v = .ofNat 0x77 then pending else none
      withdrawAddrs := fun _ => none
      commission := fun _ => [] }
  grants := fun _ _ _ => some ⟨.stake ⟨none, [], [], .delegate⟩, none⟩

def exampleKeeper : Keeper where
  evm := ⟨.ofNat 0xe1⟩
  distribution := .ofNat 0xd1
  bondedPool := .ofNat 0xb1
  notBondedPool := .ofNat 0xb2
  transferModule := .ofNat 0xb3
  escrowAddress := fun _ _ => .ofNat 0xb4

def exampleEnv : Env where
  now := 0
  evmDenom := "ahpx"
  bondDenom := "ahpx"
  baseDenom := "ahpx"
  refuses := fun _ _ _ => false
  rejects := none
  unvested := fun _ => none
  returned := 0
  closesDelegation := false
  emptiesValidator := false
  hasChannel := fun _ _ => true
  pairDenom := fun _ => none
  balanceOf := fun _ _ => 0
  conversion := []
  isVoucher := fun _ _ _ => false

/-- The message servers of the SDK. -/
abbrev exampleModules : Modules := sdk exampleKeeper exampleEnv

theorem commit_example (pending : Option Coins) :
    (commit exampleKeeper exampleEnv).run (exampleContext pending) =
      (exampleContext pending, .ok ()) := rfl

theorem mirrored_example (pending : Option Coins) : Mirrored (exampleContext pending) := by
  intro _ _ ho
  simp only [exampleContext] at ho ⊢
  split at ho
  · rename_i ha
    cases ho
    rw [if_pos ha]
    rfl
  · cases ho

/-- The contract claims its rewards. -/
def claimCall : Call :=
  ⟨.ofNat 0x11, .ofNat 0x22, false, .claimRewards (.ofNat 0x11) 10⟩

/-- The rewards are in the bank and not in the StateDB: once the contract is dirty, the next
commit burns them. -/
theorem claimRewards_burns :
    (commit exampleKeeper exampleEnv).run (exampleContext (some [⟨"ahpx", 40⟩])) =
        (exampleContext (some [⟨"ahpx", 40⟩]), .ok ()) ∧
      Mirrored (exampleContext (some [⟨"ahpx", 40⟩])) ∧
      let r := (run exampleKeeper exampleModules exampleEnv claimCall).run
        (exampleContext (some [⟨"ahpx", 40⟩]))
      r.2 = .ok () ∧ ¬ Mirrored r.1 ∧
        let dirty := { r.1 with db := r.1.db.setState r.1.backend (Address.ofNat 0x11) 0 1 }
        ((commit exampleKeeper exampleEnv).run dirty).2 = .ok () ∧
          ((commit exampleKeeper exampleEnv).run dirty).1.backend.supply = 560 := by
  refine ⟨commit_example _, mirrored_example _, by decide +kernel, ?_, by decide +kernel,
    by decide +kernel⟩
  intro h
  have hobject : (((run exampleKeeper exampleModules exampleEnv claimCall).run
      (exampleContext (some [⟨"ahpx", 40⟩]))).1.db.stateObjects (Address.ofNat 0x11)).map
        (fun o => o.account.balance) = some 100 := by decide +kernel
  have hbank : ((run exampleKeeper exampleModules exampleEnv claimCall).run
      (exampleContext (some [⟨"ahpx", 40⟩]))).1.backend.bank (Address.ofNat 0x11) = 140 := by
    decide +kernel
  obtain ⟨o, ho, hbal⟩ := Option.map_eq_some_iff.mp hobject
  have hagree := h _ o ho
  rw [hbal, hbank] at hagree
  omega

/-- The contract delegates 10 coins for itself, under a grant of the origin. -/
def delegateCall : Call :=
  ⟨.ofNat 0x11, .ofNat 0x22, false, .delegate (.ofNat 0x11) (.ofNat 0x77) 10⟩

/-- Without rewards the one adjustment is the one payment. -/
theorem delegate_mirrored :
    let r := (run exampleKeeper exampleModules exampleEnv delegateCall).run (exampleContext none)
    r.2 = .ok () ∧ r.1.backend.bank (Address.ofNat 0x11) = 90 ∧ Mirrored r.1 := by
  intro r
  have hok : r.2 = .ok () := by decide +kernel
  refine ⟨hok, by decide +kernel, ?_⟩
  refine ((mirrored_run_iff (sdk_documented _ _) (commit_example none) (mirrored_example none)
    (Prod.ext rfl hok)).1.mpr ⟨?_, by decide +kernel⟩)
  intro a ha hne
  have hcaller : a = .ofNat 0x11 := by
    by_contra hother
    unfold Cached exampleContext at ha
    simp [hother] at ha
  rcases hne with h | h
  · exact absurd h (by decide +kernel)
  · exact absurd hcaller h

end HyperPax.Cosmos
