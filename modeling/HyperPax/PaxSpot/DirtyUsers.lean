/-
  PaxSpot/DirtyUsers.lean --- the users an epoch has still to settle.

  `updateVirtualBalance` lists a user once per epoch and flags the listed ones;
  `settleEpoch` walks the list and zeroes the net deltas.  The list is exact when it has no
  duplicates, holds the flagged users, and holds every user with a net delta.

  The inner loop of `settleEpoch` goes through the supported tokens, while
  `updateVirtualBalance` takes any token, and `createMarket` does not ask the settlement
  engine.  A net delta in another token outlives the epoch, and its user is no longer
  listed.
-/
import HyperPax.PaxSpot.Book

set_option autoImplicit false

namespace HyperPax.PaxSpot

open Lib

/-! ## The list and the flags -/

section

variable {s s' : Settlement}

theorem Settlement.settleUsers_isEpochDirty (users : List Address) (s : Settlement) (u : Address) :
    (settleUsers users s).isEpochDirty u = if u ∈ users then false else s.isEpochDirty u := by
  induction users generalizing s with
  | nil => rfl
  | cons user users ih =>
    refine (ih _).trans ?_
    dsimp only
    rw [Function.update_apply]
    by_cases hu : u = user <;> by_cases hmem : u ∈ users <;> simp [hu, hmem]

theorem Settlement.settleEpoch_dirty {block : Nat} (h : s.settleEpoch block = .ok s') :
    s'.epochDirtyUsers = [] ∧
      ∀ u, s'.isEpochDirty u = if u ∈ s.epochDirtyUsers then false else s.isEpochDirty u := by
  have h := of_require h
  have h := of_require h
  have h := of_require h
  cases h
  exact ⟨rfl, settleUsers_isEpochDirty s.epochDirtyUsers s⟩

end

/-! ## Exactness -/

/-- The list has no duplicates, holds the flagged users, and holds every user with a net
delta. -/
structure Settlement.DirtyExact (s : Settlement) : Prop where
  nodup : s.epochDirtyUsers.Nodup
  flagged : ∀ u, u ∈ s.epochDirtyUsers ↔ s.isEpochDirty u
  covers : ∀ u t, (s.epochNetDelta u t).val ≠ 0 → u ∈ s.epochDirtyUsers

/-- No user has a net delta. -/
def Settlement.NoDeltas (s : Settlement) : Prop := ∀ u t, (s.epochNetDelta u t).val = 0

/-- Every net delta is in a supported token. -/
def Settlement.DeltasSupported (s : Settlement) : Prop :=
  ∀ u t, (s.epochNetDelta u t).val ≠ 0 → t ∈ s.supportedTokens

namespace Settlement.DirtyExact

variable {s s' : Settlement} {sender user token : Address}

variable (hs : s.DirtyExact)

include hs

theorem keep (hdirty : s'.dirty = s.dirty)
    (hnet : ∀ u t, (s'.epochNetDelta u t).val ≠ 0 → (s.epochNetDelta u t).val ≠ 0) :
    s'.DirtyExact := by
  have hlist : s'.epochDirtyUsers = s.epochDirtyUsers := congrArg Prod.fst hdirty
  have hflags : s'.isEpochDirty = s.isEpochDirty := congrArg Prod.snd hdirty
  refine ⟨?_, ?_, ?_⟩
  · rw [hlist]
    exact hs.nodup
  · rw [hlist, hflags]
    exact hs.flagged
  intro u t hne
  rw [hlist]
  exact hs.covers u t (hnet u t hne)

theorem markDirty (user : Address) : (s.markDirty user).epochDirtyUsers.Nodup ∧
      (∀ u, u ∈ (s.markDirty user).epochDirtyUsers ↔ (s.markDirty user).isEpochDirty u) ∧
      ∀ u, u ∈ (s.markDirty user).epochDirtyUsers ↔ u ∈ s.epochDirtyUsers ∨ u = user := by
  unfold Settlement.markDirty
  split
  · rename_i hflag
    refine ⟨hs.nodup, hs.flagged, ?_⟩
    intro u
    constructor
    · exact .inl
    rintro (hmem | rfl)
    · exact hmem
    · exact (hs.flagged u).mpr hflag
  · rename_i hflag
    have hnew : user ∉ s.epochDirtyUsers := fun hmem => hflag ((hs.flagged user).mp hmem)
    dsimp only
    refine ⟨?_, ?_, ?_⟩
    · refine List.nodup_append.mpr ⟨hs.nodup, List.nodup_singleton user, ?_⟩
      rintro u hu _ hu' rfl
      exact hnew (List.mem_singleton.mp hu' ▸ hu)
    · intro u
      rw [List.mem_append, List.mem_singleton, Function.update_apply, hs.flagged]
      by_cases hu : u = user <;> simp [hu]
    · intro _
      rw [List.mem_append, List.mem_singleton]

theorem updateVirtualBalance {delta : Sint 256}
    (h : s.updateVirtualBalance sender user token delta = .ok s') : s'.DirtyExact := by
  obtain ⟨-, -, -, hnet, hdirty⟩ := updateVirtualBalance_ok h
  have hlist : s'.epochDirtyUsers = (s.markDirty user).epochDirtyUsers := congrArg Prod.fst hdirty
  have hflags : s'.isEpochDirty = (s.markDirty user).isEpochDirty := congrArg Prod.snd hdirty
  obtain ⟨hnodup, hflagged, hmem⟩ := hs.markDirty user
  refine ⟨?_, ?_, ?_⟩
  · rw [hlist]
    exact hnodup
  · rw [hlist, hflags]
    exact hflagged
  intro u t hne
  rw [hlist, hmem]
  rw [hnet] at hne
  by_cases hu : u = user
  · exact .inr hu
  · rw [if_neg fun h => hu h.1, add_zero] at hne
    exact .inl (hs.covers u t hne)

theorem settleEpoch_iff {block : Nat} (h : s.settleEpoch block = .ok s') :
    (s.DeltasSupported → s'.DirtyExact ∧ s'.NoDeltas) ∧ (s'.DirtyExact → s.DeltasSupported) := by
  obtain ⟨-, -, -, hnet⟩ := settleEpoch_ok h
  obtain ⟨hlist, hflags⟩ := settleEpoch_dirty h
  refine ⟨?_, ?_⟩
  · intro hsupp
    have hnone : s'.NoDeltas := by
      intro u t
      rw [hnet]
      split
      · rfl
      rename_i hskipped
      by_contra hne
      exact hskipped ⟨hs.covers u t hne, hsupp u t hne⟩
    refine ⟨⟨?_, ?_, ?_⟩, hnone⟩
    · rw [hlist]
      exact List.nodup_nil
    · intro u
      rw [hlist, hflags]
      by_cases hmem : u ∈ s.epochDirtyUsers
      · simp [hmem]
      · have hclean := mt (hs.flagged u).mpr hmem
        simp [hmem, hclean]
    · intro u t hne
      exact absurd (hnone u t) hne
  · intro hafter u t hne
    by_contra hunsupported
    have hleft : (s'.epochNetDelta u t).val ≠ 0 := by
      rw [hnet, if_neg fun h => hunsupported h.2]
      exact hne
    have hmem := hafter.covers u t hleft
    rw [hlist] at hmem
    cases hmem

theorem fastSettle (h : s.fastSettle sender token = .ok s') : s'.DirtyExact := by
  obtain ⟨-, -, -, ⟨hnet, hdirty⟩, -⟩ := fastSettle_ok h
  refine hs.keep hdirty ?_
  intro _ _ hne
  rw [hnet, write_apply] at hne
  split at hne
  · exact absurd rfl hne
  · exact hne

end Settlement.DirtyExact

/-! ## Runs -/

/-- Epochs are settled only when every net delta is in a supported token. -/
def SettlesSupported (r : VaultRun) : VaultOp → Prop
  | .call (.settleEpoch _) => r.vault.settlement.DeltasSupported
  | _ => True

variable {r r' : VaultRun} {op : VaultOp} {s : Settlement}

theorem Settlement.DirtyExact.step_iff (hr : r.vault.settlement.DirtyExact)
    (h : r.step op = some r') : (SettlesSupported r op → r'.vault.settlement.DirtyExact ∧
      ∀ block, op = .call (.settleEpoch block) → r'.vault.settlement.NoDeltas) ∧
      (r'.vault.settlement.DirtyExact → SettlesSupported r op) := by
  rcases VaultRun.step_cases h with
    ⟨_, sender, token, _, rfl, -, hdeposit, -, -⟩ |
    ⟨_, sender, token, _, rfl, -, hwithdraw, -, -⟩ |
    ⟨c, rfl, hcall, -, -, -⟩ | ⟨token, _, _, _, rfl, -, -, hsettlement, -, -, -⟩
  · obtain ⟨-, -, -, -, ⟨hnet, hdirty⟩, -⟩ := Vault.deposit_ok hdeposit
    have hkept := hr.keep hdirty (by rw [hnet]; exact fun _ _ hne => hne)
    exact ⟨fun _ => ⟨hkept, nofun⟩, fun _ => trivial⟩
  · obtain ⟨-, -, -, -, -, ⟨hnet, hdirty⟩, -⟩ := Vault.withdraw_ok hwithdraw
    have hkept := hr.keep hdirty (by rw [hnet]; exact fun _ _ hne => hne)
    exact ⟨fun _ => ⟨hkept, nofun⟩, fun _ => trivial⟩
  · rcases c.cases with ⟨_, _, _, _, rfl⟩ | ⟨_, rfl⟩ | ⟨_, _, rfl⟩ |
      hadmin
    · exact ⟨fun _ => ⟨hr.updateVirtualBalance hcall, nofun⟩, fun _ => trivial⟩
    · obtain ⟨hkeeps, hneeds⟩ := hr.settleEpoch_iff hcall
      exact ⟨fun hsupp => ⟨(hkeeps hsupp).1, fun _ _ => (hkeeps hsupp).2⟩, hneeds⟩
    · exact ⟨fun _ => ⟨hr.fastSettle hcall, nofun⟩, fun _ => trivial⟩
    obtain ⟨hpositions, -, hdirty, -⟩ := Settlement.call_administrative hadmin hcall
    have hnet : r'.vault.settlement.epochNetDelta = r.vault.settlement.epochNetDelta :=
      congrArg (fun p => p.2.2.2) hpositions
    have hkept := hr.keep hdirty (by rw [hnet]; exact fun _ _ hne => hne)
    cases c with
    | updateVirtualBalance | settleEpoch | fastSettle => exact hadmin.elim
    | setMatchingEngine | setTreasury | setEpochLength | addToken | pause | unpause =>
      exact ⟨fun _ => ⟨hkept, nofun⟩, fun _ => trivial⟩
  · rw [hsettlement]
    exact ⟨fun _ => ⟨hr, nofun⟩, fun _ => trivial⟩

theorem Settlement.dirtyExact_of_deploy {self owner treasury : Address} {block epochLength : Nat}
    (h : Settlement.deploy self owner block epochLength treasury = .ok s) : s.DirtyExact := by
  have h := of_require h
  have h := of_require h
  cases h
  exact ⟨List.nodup_nil, fun u => by simp [fresh], fun u t hne => absurd rfl hne⟩

/-- In every run whose epochs are settled only when all net deltas are in supported tokens, the
list of dirty users is exact, and no delta is left after a settlement.  The condition is exact:
after any other settlement the list misses a user with a delta. -/
theorem dirtyUsers_exact {self owner treasury : Address} {block epochLength : Nat}
    {s : Settlement} (hdeploy : Settlement.deploy self owner block epochLength treasury = .ok s)
    (tokens : Address → Ledger) {r : VaultRun}
    (h : Path VaultRun.step SettlesSupported (.start s tokens) r) : r.vault.settlement.DirtyExact ∧
    ∀ op r', r.step op = some r' → ((r'.vault.settlement.DirtyExact ∧
        ∀ block, op = .call (.settleEpoch block) → r'.vault.settlement.NoDeltas) ↔
        SettlesSupported r op) := by
  have hr : r.vault.settlement.DirtyExact :=
    Path.invariant (I := fun r => r.vault.settlement.DirtyExact)
      (fun _ _ _ ht hok hstep => ((ht.step_iff hstep).1 hok).1)
      (Settlement.dirtyExact_of_deploy hdeploy) h
  refine ⟨hr, ?_⟩
  intro _ _ hstep
  obtain ⟨hkeeps, hneeds⟩ := hr.step_iff hstep
  exact ⟨fun hafter => hneeds hafter.1, hkeeps⟩

/-! ## Trading in supported tokens only -/

/-- The matching engine updates positions in supported tokens only. -/
def TradesSupported (r : VaultRun) : VaultOp → Prop
  | .call (.updateVirtualBalance _ _ token _) => r.vault.settlement.isTokenSupported token
  | _ => True

instance (r : VaultRun) (op : VaultOp) : Decidable (TradesSupported r op) := by
  unfold TradesSupported
  split <;> infer_instance

/-- The supported tokens are recorded twice alike, and hold all net deltas. -/
structure Settlement.Backed (s : Settlement) : Prop where
  listed : s.Listed
  supported : s.DeltasSupported

theorem Settlement.Backed.of_setup {s' : Settlement} (hs : s.Backed) (hsetup : s'.setup = s.setup)
    (hnet : ∀ u t, (s'.epochNetDelta u t).val ≠ 0 →
      (s.epochNetDelta u t).val ≠ 0 ∨ s.isTokenSupported t) : s'.Backed := by
  have htokens : s'.supportedTokens = s.supportedTokens := congrArg Setup.supportedTokens hsetup
  refine ⟨hs.listed.of_setup hsetup, ?_⟩
  intro u t hne
  rw [htokens]
  cases hnet u t hne with
  | inl hold => exact hs.supported u t hold
  | inr hflag => exact (hs.listed t).mpr hflag

theorem Settlement.Backed.step (hr : r.vault.settlement.Backed) (hok : TradesSupported r op)
    (h : r.step op = some r') : r'.vault.settlement.Backed := by
  rcases VaultRun.step_cases h with
    ⟨_, sender, token, _, rfl, -, hdeposit, -, -⟩ |
    ⟨_, sender, token, _, rfl, -, hwithdraw, -, -⟩ |
    ⟨c, rfl, hcall, -, -, -⟩ | ⟨token, _, _, _, rfl, -, -, hsettlement, -, -, -⟩
  · obtain ⟨-, -, -, hsetup, ⟨hnet, -⟩, -, -⟩ := Vault.deposit_ok hdeposit
    refine hr.of_setup hsetup ?_
    rw [hnet]
    exact fun _ _ hne => .inl hne
  · obtain ⟨-, -, -, -, hsetup, ⟨hnet, -⟩, -, -⟩ := Vault.withdraw_ok hwithdraw
    refine hr.of_setup hsetup ?_
    rw [hnet]
    exact fun _ _ hne => .inl hne
  · rcases c.cases with ⟨_, _, token, _, rfl⟩ | ⟨_, rfl⟩ | ⟨_, token, rfl⟩ |
      hadmin
    · obtain ⟨hsetup, -, -, hnet, -⟩ := Settlement.updateVirtualBalance_ok hcall
      refine hr.of_setup hsetup ?_
      intro u t hne
      rw [hnet] at hne
      by_cases ht : t = token
      · rw [ht]
        exact .inr hok
      · rw [if_neg fun h => ht h.2, add_zero] at hne
        exact .inl hne
    · obtain ⟨hsetup, -, -, hnet⟩ := Settlement.settleEpoch_ok hcall
      refine hr.of_setup hsetup ?_
      intro u t hne
      rw [hnet] at hne
      split at hne
      · exact absurd rfl hne
      · exact .inl hne
    · obtain ⟨-, hsetup, -, ⟨hnet, -⟩, -⟩ := Settlement.fastSettle_ok hcall
      refine hr.of_setup hsetup ?_
      intro u t hne
      rw [hnet, write_apply] at hne
      split at hne
      · exact absurd rfl hne
      · exact .inl hne
    · obtain ⟨hpositions, hlisted, -, hgrown⟩ := Settlement.call_administrative hadmin hcall
      have hnet : r'.vault.settlement.epochNetDelta = r.vault.settlement.epochNetDelta :=
        congrArg (fun p => p.2.2.2) hpositions
      refine ⟨hlisted hr.listed, ?_⟩
      intro u t hne
      rw [hnet] at hne
      exact hgrown (hr.supported u t hne)
  · rw [hsettlement]
    exact hr

theorem settlesSupported_of_trades {start : VaultRun} (hstart : start.vault.settlement.Backed)
    (h : Path VaultRun.step TradesSupported start r) :
    Path VaultRun.step SettlesSupported start r ∧ r.vault.settlement.Backed := by
  induction h with
  | refl => exact ⟨.refl, hstart⟩
  | @tail r r' op _ hok hstep ih =>
    refine ⟨.tail op ih.1 ?_ hstep, ih.2.step hok hstep⟩
    cases op with
    | deposit | withdraw | transferToken => trivial
    | call c =>
      cases c with
      | settleEpoch => exact ih.2.supported
      | updateVirtualBalance | fastSettle | setMatchingEngine | setTreasury | setEpochLength
      | addToken | pause | unpause => trivial

open SpotRun in
/-- A market is opened on tokens that nobody has added to the settlement engine, Bob sells 5 base
tokens to Alice, and the epoch is settled.  Alice still has a net delta of 5 and is not listed. -/
theorem delta_outlives_epoch : (∃ x : Exchange, Path Exchange.step (fun _ _ => True) fresh x ∧
      (x.settlement.epochCounter = 1 ∧ x.settlement.epochDirtyUsers = [] ∧
        (x.settlement.epochNetDelta alice base).val = 5) ∧
      ¬ x.settlement.DirtyExact ∧ ¬ x.settlement.NoDeltas) ∧
    ∃ r r' : VaultRun, Path VaultRun.step (fun _ _ => True) vault r ∧
      r.step (.call (.settleEpoch 5)) = some r' ∧
      ¬ r'.vault.settlement.DirtyExact ∧ ¬ r'.vault.settlement.NoDeltas := by
  -- a delta of a user who is not listed
  have hbroken : ∀ s : Settlement, s.epochDirtyUsers = [] → (s.epochNetDelta alice base).val = 5 →
      ¬ s.DirtyExact ∧ ¬ s.NoDeltas := by
    intro _ hlist hdelta
    refine ⟨fun hexact => ?_, fun hnone => ?_⟩
    · have hmem := hexact.covers alice base (by rw [hdelta]; decide)
      rw [hlist] at hmem
      cases hmem
    · have hzero := hnone alice base
      rw [hdelta] at hzero
      cases hzero
  constructor
  · obtain ⟨x, hpath, hcounter, hlist, hdelta⟩ :
        ∃ x, Path Exchange.step (fun _ _ => True) fresh x ∧ x.settlement.epochCounter = 1 ∧
          x.settlement.epochDirtyUsers = [] ∧ (x.settlement.epochNetDelta alice base).val = 5 :=
      exists_path fresh
        (opening .continuous 0 ++ [limit bob .sell 0 5, limit alice .buy 0 5,
          .custody (.call (.settleEpoch 5))]) (by decide +kernel)
    exact ⟨x, hpath, ⟨hcounter, hlist, hdelta⟩, hbroken _ hlist hdelta⟩
  obtain ⟨r, r', hpath, hstep, hlist, hdelta⟩ :
      ∃ r r', Path VaultRun.step (fun _ _ => True) vault r ∧
        r.step (.call (.settleEpoch 5)) = some r' ∧
        r'.vault.settlement.epochDirtyUsers = [] ∧
        (r'.vault.settlement.epochNetDelta alice base).val = 5 :=
    exists_step_of_run vault
      [.call (.setMatchingEngine CustodyRun.owner CustodyRun.engine),
        .call (.updateVirtualBalance CustodyRun.engine alice base (Sint.wrap 5))]
      (by decide +kernel)
  exact ⟨r, r', hpath, hstep, hbroken _ hlist hdelta⟩

open SpotRun in
/-- The same trade in a token that was added before. -/
theorem dirtyUsers_exact_supported : ∃ r : VaultRun, Path VaultRun.step SettlesSupported vault r ∧
      (r.vault.settlement.epochCounter = 1 ∧ r.vault.settlement.epochDirtyUsers = [bob]) ∧
      r.vault.settlement.DirtyExact := by
  obtain ⟨r, hpath, hcounter, hlist⟩ :
      ∃ r, Path VaultRun.step TradesSupported vault r ∧ r.vault.settlement.epochCounter = 1 ∧
        r.vault.settlement.epochDirtyUsers = [bob] :=
    exists_path vault
      [.call (.setMatchingEngine CustodyRun.owner CustodyRun.engine),
        .call (.addToken CustodyRun.owner base),
        .call (.updateVirtualBalance CustodyRun.engine alice base (Sint.wrap 5)),
        .call (.settleEpoch 5),
        .call (.updateVirtualBalance CustodyRun.engine bob base (Sint.wrap 7))]
      (by decide +kernel)
  have hdeploy : Settlement.deploy CustodyRun.self CustodyRun.owner 0 5 CustodyRun.treasury =
      .ok CustodyRun.settlement := rfl
  have hstart : vault.vault.settlement.Backed :=
    ⟨(Settlement.deploy_ok hdeploy).1, fun u t hne => absurd rfl hne⟩
  have hsettles := (settlesSupported_of_trades hstart hpath).1
  exact ⟨r, hsettles, ⟨hcounter, hlist⟩, (dirtyUsers_exact hdeploy _ hsettles).1⟩

end HyperPax.PaxSpot
