/-
  Vesting/Consent.lean --- who acts for a funder.

  A call that acts for a funder should come from the funder or from a caller the funder
  has authorized.  The precompile asks whether the origin has authorized the caller, and
  the keeper whether the argument is the account's funder; neither relates the origin to
  the argument when a contract calls.
-/
import HyperPax.Vesting.Frame

set_option autoImplicit false

namespace HyperPax.Vesting

open Lib ClawbackVestingAccount

/-- The funder is the caller, or has authorized it. -/
def Consented (grants : Cosmos.Grants) (now : Time) (m : Method) (caller funder : Address) : Prop :=
  funder = caller ∨ Granted grants now m funder caller
deriving Decidable

/-- The call is direct, or the funder is the origin, or the funder has consented, or the origin
has not. -/
def Vouched (grants : Cosmos.Grants) (now : Time) (m : Method) (origin caller funder : Address) :
    Prop :=
  caller = origin ∨ funder = origin ∨ Consented grants now m caller funder ∨
    ¬ Granted grants now m origin caller
deriving Decidable

variable {D : Type} {s : State D} {m : Method} {origin caller funder : Address} {e : Error}
  {u : Unit}

theorem checkCaller_eq_ok : checkCaller s m origin caller funder e = .ok u ↔
      (caller = origin → origin = funder) ∧
        (caller ≠ origin → Granted s.grants s.now m origin caller) := by
  rw [checkCaller, require_bind_ok, require_ok]
  refine and_congr_left fun _ => ?_
  rw [not_and, not_not]

theorem consented_of_checkCaller (h : checkCaller s m origin caller funder e = .ok u)
    (hv : Vouched s.grants s.now m origin caller funder) :
    Consented s.grants s.now m caller funder := by
  obtain ⟨hdirect, hgrant⟩ := checkCaller_eq_ok.mp h
  by_cases hc : caller = origin
  · exact .inl ((hdirect hc).symm.trans hc.symm)
  rcases hv with horigin | hfunder | hconsent | hnone
  · exact absurd horigin hc
  · subst hfunder
    exact .inr (hgrant hc)
  · exact hconsent
  · exact absurd (hgrant hc) hnone

variable [Fintype D] [LinearOrder D]

variable {p : Params D} {s' : State D} {delegatedAmt : Nat} {c : Call D}
  {granter grantee a : Address}

theorem checkCaller_of_call (hc : c.actsFor = some (m, funder))
    (h : call p s origin caller delegatedAmt c = .ok s') :
    ∃ e, checkCaller s m origin caller funder e = .ok () := by
  cases c with
  | createClawbackVestingAccount | convertVestingAccount => cases hc
  | fundVestingAccount =>
    cases hc
    obtain ⟨_, -, h⟩ := bind_ok.mp h
    obtain ⟨u, hcheck, -⟩ := bind_ok.mp h
    exact ⟨_, hcheck⟩
  | clawback =>
    cases hc
    obtain ⟨u, hcheck, -⟩ := bind_ok.mp h
    exact ⟨_, hcheck⟩
  | updateVestingFunder =>
    cases hc
    obtain ⟨u, -, h⟩ := bind_ok.mp h
    obtain ⟨_, hcheck, -⟩ := bind_ok.mp h
    exact ⟨_, hcheck⟩

theorem checkCaller_of_leftover (hc : c.actsFor = some (m, funder))
    (h : leftover p s origin caller delegatedAmt c = some s') :
    ∃ e, checkCaller s m origin caller funder e = .ok () := by
  cases c with
  | createClawbackVestingAccount | updateVestingFunder | convertVestingAccount => cases h
  | fundVestingAccount =>
    cases hc
    obtain ⟨_, -, h⟩ := bind_ok.mp (toOption_eq_some.mp h)
    obtain ⟨u, hcheck, -⟩ := bind_ok.mp h
    exact ⟨_, hcheck⟩
  | clawback =>
    cases hc
    obtain ⟨u, hcheck, -⟩ := bind_ok.mp (toOption_eq_some.mp h)
    exact ⟨_, hcheck⟩

theorem consented_of_call (hc : c.actsFor = some (m, funder))
    (hv : Vouched s.grants s.now m origin caller funder)
    (h : call p s origin caller delegatedAmt c = .ok s') :
    Consented s.grants s.now m caller funder := by
  obtain ⟨_, hcheck⟩ := checkCaller_of_call hc h
  exact consented_of_checkCaller hcheck hv

/-! ## Calls without consent -/

/-- An address other than the given one and the zero address. -/
def another (a : Address) : Address :=
  if a = .ofNat 1 then .ofNat 2 else .ofNat 1

theorem another_ne (a : Address) : another a ≠ a := by
  unfold another
  split
  · rename_i h
    rw [h]
    decide
  · rename_i h
    exact fun h' => h h'.symm

theorem another_ne_zero (a : Address) : another a ≠ .zero := by
  unfold another
  split <;> decide

section

variable [Inhabited D] (grants : Cosmos.Grants) (now : Time) (funder : Address)

/-- No address is blocked, and the funder is not governance. -/
def laxParams : Params D where
  bondDenom := default
  blockedAddr _ := false
  authority := another funder
  distribution := .zero

/-- Another account is funded by the funder, everyone has a coin of each kind, and nothing is
disabled. -/
def laxState (va : ClawbackVestingAccount D) : State D where
  now := now
  accounts a := if a = another funder then some (.clawback va) else none
  balances _ _ := 1
  communityPool := 0
  govClawbackDisabled _ := false
  activeClawbackProposal _ := false
  grants := grants

omit [Fintype D] [LinearOrder D] [Inhabited D] in
theorem laxState_account (va : ClawbackVestingAccount D) :
    getClawbackVestingAccount (laxState grants now funder va) (another funder) = .ok va := by
  rw [getClawbackVestingAccount_eq_ok]
  exact if_pos rfl

omit [Fintype D] [LinearOrder D] in
theorem updateVestingFunder_succeeds : Succeeds (updateVestingFunder (laxParams funder)
      (laxState grants now funder (newVestingAccount funder) : State D)
      ⟨funder, another funder, another funder⟩) := by
  refine .require rfl (.require rfl (.bind (laxState_account grants now funder _) ?_))
  exact .require rfl (.require (storable_newVestingAccount (D := D) funder) (.ok _))

omit [LinearOrder D] [Inhabited D] in
theorem sendCoins_succeeds {src dst : Address} {amount : Coins D}
    (h : ∀ d, 0 < amount d → lockedOf s src d + amount d ≤ s.balances src d) :
    Succeeds (sendCoins s src dst amount) :=
  .require h (.ok _)

/-- An account with a schedule of no coins. -/
def emptySchedule : ClawbackVestingAccount D :=
  { newVestingAccount funder with vestingPeriods := [⟨.zero, 0⟩] }

omit [LinearOrder D] in
theorem clawback_succeeds : Succeeds (clawback (laxParams funder)
      (laxState grants now funder (emptySchedule funder) : State D)
      ⟨funder, another funder, some funder⟩) := by
  obtain ⟨_, hcompute⟩ := computeClawback_of_vesting
    (emptySchedule funder : ClawbackVestingAccount D) now
    (getVestingCoins_of_le _ now le_rfl)
  have hcheck : checkFunderClawback (laxParams funder)
      (laxState grants now funder (emptySchedule funder) : State D)
      ⟨funder, another funder, some funder⟩ funder = .ok () :=
    (if_neg (another_ne funder).symm).trans (require_bind_ok.mpr ⟨rfl, rfl⟩)
  have hdest : clawbackDest (laxParams funder)
      (laxState grants now funder (emptySchedule funder) : State D) (emptySchedule funder)
      ⟨funder, another funder, some funder⟩ funder = .ok funder :=
    (if_neg (another_ne funder)).trans (require_bind_ok.mpr ⟨rfl, rfl⟩)
  have hchecked : checkClawback (laxParams funder)
      (laxState grants now funder (emptySchedule funder) : State D)
      ⟨funder, another funder, some funder⟩ = .ok (emptySchedule funder, funder) :=
    bind_ok.mpr ⟨(), hcheck, bind_ok.mpr ⟨_, laxState_account grants now funder _,
      require_bind_ok.mpr ⟨(fun h => nomatch h.1), bind_ok.mpr ⟨_, hdest, rfl⟩⟩⟩⟩
  refine .bind hchecked (.orRevert hcompute ?_)
  have hsend : Succeeds (sendClawback (laxParams funder : Params D)
      (convertToEth (laxState grants now funder (emptySchedule funder)) (another funder))
      (another funder) funder ((emptySchedule funder).originalVesting -
        (emptySchedule funder).getVestedCoins now)) := by
    -- there is nothing to send
    have hnone : ∀ d, ¬ 0 < (emptySchedule funder : ClawbackVestingAccount D).originalVesting d -
        (emptySchedule funder : ClawbackVestingAccount D).getVestedCoins now d := by
      intro d
      exact (Nat.zero_sub _).not_gt
    unfold sendClawback
    split
    · obtain ⟨_, ht⟩ := sendCoins_succeeds fun d hd => absurd hd (hnone d)
      exact .bind ht (.ok _)
    · exact sendCoins_succeeds fun d hd => absurd hd (hnone d)
  obtain ⟨_, hs'⟩ := hsend
  exact .bind hs' (.ok _)

/-- The periods of a grant of one coin, after a second. -/
def oneCoin : List (RawPeriod D) := [⟨.wrap 1, [(default, 1)]⟩]

/-- The message of that grant. -/
def oneCoinMsg : MsgFundVestingAccount D :=
  ⟨funder, another funder, Sint.wrap 0, [], oneCoin.map RawPeriod.read⟩

omit [Fintype D] in
theorem totalAmount_oneCoin (d : D) :
    totalAmount ((oneCoin : List (RawPeriod D)).map RawPeriod.read) d =
      if default = d then 1 else 0 := by
  rw [oneCoin, List.map_singleton, totalAmount_cons, totalAmount_nil, add_zero]
  exact Nat.add_zero _

theorem validateBasic_oneCoin :
    MsgFundVestingAccount.validateBasic funder (another funder) (Sint.wrap 0) []
      (oneCoin : List (RawPeriod D)) = .ok (oneCoinMsg funder) := by
  have hperiods : validatePeriods 0 (oneCoin : List (RawPeriod D)) =
      .ok (oneCoin.map RawPeriod.read) := by
    have hvalid : (⟨.wrap 1, [(default, 1)]⟩ : RawPeriod D).IsValid := by
      refine ⟨List.pairwise_singleton _ _, ?_⟩
      intro _ hcoin
      rw [List.mem_singleton] at hcoin
      subst hcoin
      exact Nat.one_pos
    have hlength : 1 ≤ (.wrap 1 : Time).val := by decide
    exact require_bind_ok.mpr ⟨hlength, require_bind_ok.mpr ⟨hvalid, rfl⟩⟩
  refine require_bind_ok.mpr ⟨another_ne_zero funder, bind_ok.mpr ⟨[], rfl,
    bind_ok.mpr ⟨_, hperiods, require_bind_ok.mpr ⟨?_, require_bind_ok.mpr ⟨.inl rfl, rfl⟩⟩⟩⟩⟩
  rintro ⟨-, hzero⟩
  have hone := hzero default
  rw [totalAmount_oneCoin, if_pos rfl] at hone
  exact Nat.one_ne_zero hone

theorem fundVestingAccount_succeeds (delegatedAmt : Nat) :
    Succeeds (fundVestingAccount (laxParams funder)
      (laxState grants now funder (newVestingAccount funder) : State D) delegatedAmt
      (oneCoinMsg funder)) := by
  have htotal := (oneCoinMsg funder : MsgFundVestingAccount D).totalAmount_grant
  obtain ⟨va', hgrant, hstart⟩ := exists_addGrant (laxParams funder) now delegatedAmt
    (newVestingAccount funder : ClawbackVestingAccount D) (.wrap 0)
    (oneCoinMsg funder).grant.1 le_rfl htotal.le
  have hstorable : Storable va'.startTime := by
    rw [hstart]
    exact (by decide : Storable (min64 (Sint.wrap 0) (Sint.wrap 0)))
  have hrecord : recordGrant (laxParams funder)
      (laxState grants now funder (newVestingAccount funder) : State D) delegatedAmt
      (oneCoinMsg funder) = .ok (setAccount (laxState grants now funder (newVestingAccount funder))
        (another funder) (.clawback va'), (oneCoinMsg funder).grant.2.2) :=
    require_bind_ok.mpr ⟨rfl, bind_ok.mpr ⟨_, laxState_account grants now funder _,
      require_bind_ok.mpr ⟨rfl, bind_ok.mpr ⟨_, hgrant, bind_ok.mpr
        ⟨_, require_bind_ok.mpr ⟨hstorable, rfl⟩, rfl⟩⟩⟩⟩⟩
  refine .bind hrecord (sendCoins_succeeds fun d _ => ?_)
  -- the funder holds one coin of each kind, and none of them is locked
  have hnone : (setAccount (laxState grants now funder (newVestingAccount funder))
      (another funder) (.clawback va')).accounts funder = none := by
    rw [setAccount_of_ne _ _ (another_ne funder).symm]
    exact if_neg (another_ne funder).symm
  have hcoins := congrFun ((oneCoinMsg funder : MsgFundVestingAccount D).grant_coins rfl) d
  have hone : totalAmount (oneCoinMsg funder : MsgFundVestingAccount D).vestingPeriods d ≤ 1 := by
    rw [oneCoinMsg, totalAmount_oneCoin]
    split <;> omega
  have hlocked : lockedOf (setAccount (laxState grants now funder (newVestingAccount funder))
      (another funder) (.clawback va')) funder d = 0 := by
    rw [lockedOf, hnone]
    rfl
  calc lockedOf (setAccount (laxState grants now funder (newVestingAccount funder))
          (another funder) (.clawback va')) funder d + (oneCoinMsg funder).grant.2.2 d
      = totalAmount (oneCoinMsg funder : MsgFundVestingAccount D).vestingPeriods d := by
        rw [hlocked, hcoins, zero_add]
    _ ≤ 1 := hone

theorem exists_call_of_granted (hc : caller ≠ origin)
    (hgranted : Granted grants now m origin caller) :
    ∃ (p : Params D) (s s' : State D) (c : Call D), s.grants = grants ∧ s.now = now ∧
      c.actsFor = some (m, funder) ∧ call p s origin caller 0 c = .ok s' := by
  have hcheck : ∀ (va : ClawbackVestingAccount D) (e : Error),
      checkCaller (laxState grants now funder va) m origin caller funder e = .ok () :=
    fun va e => checkCaller_eq_ok.mpr ⟨fun h => absurd h hc, fun _ => hgranted⟩
  cases m with
  | fundVestingAccount =>
    obtain ⟨s', hs'⟩ := fundVestingAccount_succeeds (D := D) grants now funder 0
    exact ⟨laxParams funder, laxState grants now funder (newVestingAccount funder), s',
      .fundVestingAccount funder (another funder) Uint.zero [] oneCoin, rfl, rfl, rfl,
      bind_ok.mpr ⟨_, validateBasic_oneCoin funder, bind_ok.mpr ⟨(), hcheck _ _, hs'⟩⟩⟩
  | clawback =>
    obtain ⟨⟨s', _⟩, hs'⟩ := clawback_succeeds (D := D) grants now funder
    exact ⟨laxParams funder, laxState grants now funder (emptySchedule funder), s',
      .clawback funder (another funder) funder, rfl, rfl, rfl,
      bind_ok.mpr ⟨(), hcheck _ _, bind_ok.mpr ⟨_, hs', rfl⟩⟩⟩
  | updateVestingFunder =>
    obtain ⟨s', hs'⟩ := updateVestingFunder_succeeds (D := D) grants now funder
    have hbasic : MsgUpdateVestingFunder.validateBasic ⟨funder, another funder, another funder⟩ =
        .ok () :=
      require_bind_ok.mpr ⟨another_ne_zero funder, require_ok.mpr (another_ne funder).symm⟩
    exact ⟨laxParams funder, laxState grants now funder (newVestingAccount funder), s',
      .updateVestingFunder funder (another funder) (another funder), rfl, rfl, rfl,
      bind_ok.mpr ⟨(), hbasic, bind_ok.mpr ⟨(), hcheck _ _, hs'⟩⟩⟩

end

/-! ## Runs by others -/

/-- Neither `F` nor governance has a part in the step. -/
def Label.ByOthers (F authority : Address) : Label D → Prop
  | .call origin caller _ _ | .failedCall origin caller _ _ =>
    origin ≠ F ∧ caller ≠ F ∧ caller ≠ authority
  | .grant granter _ _ _ => granter ≠ F ∧ granter ≠ authority
  | .send sender _ _ => sender ≠ F
  | .advance _ => True

/-- A call that acts for a funder is vouched for. -/
def Label.Vouched (s : State D) : Label D → Prop
  | .call origin caller _ c | .failedCall origin caller _ c =>
    ∀ a ∈ c.actsFor, Vesting.Vouched s.grants s.now a.1 origin caller a.2
  | _ => True

instance (F authority : Address) (l : Label D) : Decidable (l.ByOthers F authority) := by
  unfold Label.ByOthers
  split <;> infer_instance

instance (s : State D) (l : Label D) : Decidable (l.Vouched s) := by
  unfold Label.Vouched
  split <;> infer_instance

/-- No grant is given by an address. -/
def NoGrants (s : State D) (granter : Address) : Prop :=
  ∀ grantee msg, s.grants grantee granter msg = none

/-- What a run by others leaves to `F`: from `s` to `t`, its balance has not fallen, and the
accounts it funded are as they were, or had matured in between. -/
structure Kept (F : Address) (s t : State D) : Prop where
  now : s.now.val ≤ t.now.val
  balance : s.balances F ≤ t.balances F
  funded : ∀ a va, s.accounts a = some (.clawback va) → va.funderAddress = F →
    t.accounts a = some (.clawback va) ∨
      ∃ now : Time, s.now.val ≤ now.val ∧ now.val ≤ t.now.val ∧ va.Matured now

/-- `F` can only act for itself: its account cannot be clawed back, and neither it nor governance
has authorized anyone. -/
structure Alone (p : Params D) (F : Address) (s : State D) : Prop where
  account : NotClawback s F
  grants : NoGrants s F
  authority : NoGrants s p.authority

omit [Fintype D] [LinearOrder D] in

theorem NoGrants.not_granted (h : NoGrants s granter) (m : Method) :
    ¬ Granted s.grants s.now m granter grantee := by
  rw [Granted, Cosmos.getAuthorization, h grantee m.msgType]
  exact Bool.false_ne_true

omit [Fintype D] [LinearOrder D] in

theorem NoGrants.ne_of_consented (h : NoGrants s a) (hcaller : caller ≠ a)
    (hc : Consented s.grants s.now m caller funder) : funder ≠ a := by
  rintro rfl
  cases hc with
  | inl hsame => exact hcaller hsame.symm
  | inr hgranted => exact h.not_granted m hgranted

omit [Fintype D] [LinearOrder D] in
theorem Alone.ne_of_consented {F : Address} (ha : Alone p F s) (hcaller : caller ≠ F)
    (hauth : caller ≠ p.authority) (hc : Consented s.grants s.now m caller funder) :
    funder ≠ F ∧ funder ≠ p.authority :=
  ⟨ha.grants.ne_of_consented hcaller hc, ha.authority.ne_of_consented hauth hc⟩

omit [Fintype D] [LinearOrder D] in
theorem NoGrants.setGrant {msg : Cosmos.MsgType} {g : Option Cosmos.Grant} (h : NoGrants s a)
    (hne : granter ≠ a) :
    NoGrants { s with grants := Cosmos.setGrant s.grants grantee granter msg g } a := by
  intro e m
  have hother : ¬ (e = grantee ∧ a = granter ∧ m = msg) := fun hall => hne hall.2.1.symm
  exact (if_neg hother).trans (h e m)

section

omit [LinearOrder D]

variable {p : Params D} {F : Address} {s t u : State D}

theorem Kept.refl : Kept F s s := ⟨le_rfl, le_rfl, fun _ _ ha _ => .inl ha⟩

theorem Kept.spared (hk : Kept F s t) (h : Spared F t u) : Kept F s u where
  now := by rw [h.now]; exact hk.now
  balance := hk.balance.trans h.balance
  funded a va ha hF := by
    rw [h.now]
    cases hk.funded a va ha hF with
    | inr hmatured => exact .inr hmatured
    | inl hsame =>
      cases h.funded a va hsame hF with
      | inl hstill => exact .inl hstill
      | inr hmatured => exact .inr ⟨t.now, hk.now, le_rfl, hmatured⟩

theorem Kept.advance {now : Time} (hk : Kept F s t) (hle : t.now.val ≤ now.val) :
    Kept F s { t with now := now } where
  now := hk.now.trans hle
  balance := hk.balance
  funded a va ha hF := by
    cases hk.funded a va ha hF with
    | inl hsame => exact .inl hsame
    | inr hmatured =>
      obtain ⟨time, hfrom, hto, hmatured⟩ := hmatured
      exact .inr ⟨time, hfrom, hto.trans hle, hmatured⟩

theorem Alone.spared (ha : Alone p F t) (h : Spared F t u) : Alone p F u where
  account := h.account
  grants := by
    intro e m
    rw [h.grants]
    exact ha.grants e m
  authority := by
    intro e m
    rw [h.grants]
    exact ha.authority e m

end

theorem kept_of_step {F : Address} {t u : State D} {l : Label D} (ha : Alone p F t)
    (hk : Kept F s t) (hothers : l.ByOthers F p.authority) (hvouched : l.Vouched t)
    (h : step p t l = some u) : Alone p F u ∧ Kept F s u := by
  cases l with
  | call =>
    obtain ⟨horigin, hcaller, hauth⟩ := hothers
    have hcall := toOption_eq_some.mp h
    have hspared : Spared F t u := by
      refine call_spared ha.account horigin ?_ hcall
      intro _ _ hacts
      exact ha.ne_of_consented hcaller hauth (consented_of_call hacts (hvouched _ hacts) hcall)
    exact ⟨ha.spared hspared, hk.spared hspared⟩
  | failedCall =>
    obtain ⟨-, hcaller, hauth⟩ := hothers
    have hspared : Spared F t u := by
      refine leftover_spared ha.account ?_ h
      intro _ _ hacts
      obtain ⟨_, hcheck⟩ := checkCaller_of_leftover hacts h
      exact ha.ne_of_consented hcaller hauth (consented_of_checkCaller hcheck (hvouched _ hacts))
    exact ⟨ha.spared hspared, hk.spared hspared⟩
  | grant =>
    cases h
    exact ⟨⟨ha.account, ha.grants.setGrant hothers.1, ha.authority.setGrant hothers.2⟩,
      hk.now, hk.balance, hk.funded⟩
  | send =>
    have hspared := Spared.sendCoins ha.account hothers (toOption_eq_some.mp h)
    exact ⟨ha.spared hspared, hk.spared hspared⟩
  | advance =>
    rw [step] at h
    split at h
    · rename_i hle
      cases h
      exact ⟨⟨ha.account, ha.grants, ha.authority⟩, hk.advance hle⟩
    · cases h

/-- For all grants, every time, origin, caller and funder, the calls of a method that act for the
funder have its consent, whatever else the state and the arguments are, exactly when they are
vouched for.  And in every run of steps by others in which every call is vouched for, a funder
that has authorized no one loses no coins, and the accounts it funds stay as they are, or have
matured. -/
theorem funder_consents_iff_vouched [Inhabited D] :
    (∀ (grants : Cosmos.Grants) (now : Time) (m : Method) (origin caller funder : Address),
      (∀ (p : Params D) (s s' : State D) (delegatedAmt : Nat) (c : Call D), s.grants = grants →
        s.now = now → c.actsFor = some (m, funder) →
          call p s origin caller delegatedAmt c = .ok s' → Consented grants now m caller funder) ↔
        Vouched grants now m origin caller funder) ∧
    ∀ (p : Params D) (F : Address) (s t : State D), Alone p F s →
      Path (step p) (fun s l => l.ByOthers F p.authority ∧ l.Vouched s) s t → Kept F s t := by
  constructor
  · intro grants now m origin caller funder
    constructor
    · intro h
      -- a direct call needs no voucher, and an authorized contract finds a state to act in
      by_cases hcaller : caller = origin
      · exact .inl hcaller
      by_cases hgranted : Granted grants now m origin caller
      · obtain ⟨p, s, s', c, hgrants, hnow, hacts, hcall⟩ :=
          exists_call_of_granted (D := D) grants now funder hcaller hgranted
        exact .inr (.inr (.inl (h p s s' 0 c hgrants hnow hacts hcall)))
      · exact .inr (.inr (.inr hgranted))
    · intro hv p s _ _ _ hgrants hnow hacts hcall
      subst hgrants hnow
      exact consented_of_call hacts hv hcall
  · intro p F s t ha hpath
    refine (Path.invariant (I := fun t => Alone p F t ∧ Kept F s t) ?_ ⟨ha, .refl⟩ hpath).2
    rintro _ _ _ ⟨ha, hk⟩ ⟨hothers, hvouched⟩ hstep
    exact kept_of_step ha hk hothers hvouched hstep

/-! ## A chain to run -/

namespace VestingRun

def victim : Address := .ofNat 1
def attacker : Address := .ofNat 2
def sponsor : Address := .ofNat 3
def employee : Address := .ofNat 4
def contract : Address := .ofNat 5

def params : Params Unit where
  bondDenom := ()
  blockedAddr _ := false
  authority := .ofNat 10
  distribution := .ofNat 11

/-- The victim and the sponsor have a hundred coins each. -/
def chain : State Unit where
  now := .wrap 1000
  accounts a := some (.eth (a = contract))
  balances a _ := if a = victim ∨ a = sponsor then 100 else 0
  communityPool := 0
  govClawbackDisabled _ := false
  activeClawbackProposal _ := false
  grants _ _ _ := none

/-- A user makes its account a vesting account, with a funder of its choice. -/
def create (user funder : Address) : Label Unit :=
  .call user user 0 (.createClawbackVestingAccount funder user true)

/-- An authorization of the contract to fund vesting accounts. -/
def authorize (granter : Address) : Label Unit :=
  .grant granter contract .fundVestingAccount (some ⟨.generic .fundVestingAccount, none⟩)

/-- The contract funds a vesting account with a hundred coins that vest after a second. -/
def fundThroughContract (origin funder vesting : Address) : Label Unit :=
  .call origin contract 0 (.fundVestingAccount funder vesting (.truncate 1000) []
    [⟨.wrap 1, [((), 100)]⟩])

theorem alone : Alone params victim chain :=
  ⟨fun _ => (fun h => nomatch h), fun _ _ => rfl, fun _ _ => rfl⟩

end VestingRun

open VestingRun

/-- The attacker names the victim as the funder of its own account, authorizes a contract of its
own, and has the contract fund the account.  A second later it has the victim's coins. -/
theorem contract_funds_attacker_from_victim : Alone params victim chain ∧
      ∃ t, Path (step params) (fun _ l => l.ByOthers victim params.authority) chain t ∧
        chain.balances victim () = 100 ∧ t.balances victim () = 0 ∧ t.balances contract () = 100 :=
  ⟨alone, exists_path chain
    [create attacker victim, authorize attacker, fundThroughContract attacker victim attacker,
      .advance (.wrap 1001), .send attacker contract fun _ => 100] (by decide +kernel)⟩

/-- A contract that the sponsor has authorized funds the sponsor's employee; the sponsor has
consented, and the victim keeps what it has. -/
theorem sponsored_employee_spares_victim :
    ∃ t u, Path (step params) (fun s l => l.ByOthers victim params.authority ∧ l.Vouched s)
        chain t ∧ step params t (fundThroughContract sponsor sponsor employee) = some u ∧
      u.balances sponsor () = 0 ∧
      Consented t.grants t.now .fundVestingAccount contract sponsor ∧ Kept victim chain u := by
  have hrun : ∃ t u, Path (step params)
      (fun s l => l.ByOthers victim params.authority ∧ l.Vouched s) chain t ∧
      step params t (fundThroughContract sponsor sponsor employee) = some u ∧
      (fundThroughContract sponsor sponsor employee).Vouched t ∧ u.balances sponsor () = 0 :=
    exists_step_of_run chain [create employee sponsor, authorize sponsor] (by decide +kernel)
  obtain ⟨t, u, hpath, hstep, hvouched, hbal⟩ := hrun
  refine ⟨t, u, hpath, hstep, hbal, ?_, ?_⟩
  · exact (funder_consents_iff_vouched.1 t.grants t.now .fundVestingAccount sponsor contract
      sponsor).mpr (hvouched _ rfl) params t u 0 _ rfl rfl rfl (toOption_eq_some.mp hstep)
  · exact funder_consents_iff_vouched.2 params victim chain u alone
      (.tail _ hpath ⟨by decide, hvouched⟩ hstep)

end HyperPax.Vesting
