/-
  Ante/AuthzLimiter.lean --- which transactions the authz limiter lets through.

  Source: app/ante/cosmos/authz.go.

  The limiter walks through the messages of a transaction and into every `MsgExec`.  Its level
  counter is raised inside the loop over the messages and not lowered again.  So what it
  bounds is not the depth of nesting: the second `MsgExec` of a list starts one level deeper
  than the first, and so on (`Staircase`).  And only messages other than `MsgExec` and `MsgGrant`
  are looked up in the list of disabled types.
-/
import HyperPax.Lib.Revert

set_option autoImplicit false

namespace HyperPax.Ante

open Lib List

/-! ## The limiter -/

/-- A message as the limiter sees it. -/
inductive Msg where
  /-- `authz.MsgExec`, with the messages it wraps -/
  | exec (msgs : List Msg)
  /-- `authz.MsgGrant`, with the type that its authorization is for -/
  | grant (url : String)
  /-- any other message, with its type -/
  | other (url : String)

inductive LimiterError where
  | tooManyNested
  | disabledMsg (url : String)
deriving DecidableEq

/-- `maxNestedMsgs`. -/
def maxNestedMsgs : Nat := 7

variable (disabledMsgTypes : List String) {b : Bool} {rest : List Msg} {type : String}

/-- `isDisabledMsg`. -/
def isDisabledMsg (url : String) : Bool := disabledMsgTypes.any fun disabled => url = disabled

/-- The loop of `checkDisabledMsgs`: the counter is raised before each `MsgExec`. -/
def checkMsgs : List Msg → Bool → Nat → Except LimiterError Unit
  | [], _, _ => .ok ()
  | .exec inner :: rest, isAuthzInnerMsg, nestedLvl => do
    require (nestedLvl + 1 < maxNestedMsgs) .tooManyNested
    checkMsgs inner true (nestedLvl + 1)
    checkMsgs rest isAuthzInnerMsg (nestedLvl + 1)
  | .grant url :: rest, isAuthzInnerMsg, nestedLvl => do
    require (isDisabledMsg disabledMsgTypes url = false) (.disabledMsg url)
    checkMsgs rest isAuthzInnerMsg nestedLvl
  | .other url :: rest, isAuthzInnerMsg, nestedLvl => do
    require (¬ (isAuthzInnerMsg ∧ isDisabledMsg disabledMsgTypes url))
      (.disabledMsg url)
    checkMsgs rest isAuthzInnerMsg nestedLvl

/-- `checkDisabledMsgs`. -/
def checkDisabledMsgs (msgs : List Msg) (isAuthzInnerMsg : Bool) (nestedLvl : Nat) :
    Except LimiterError Unit := do
  require (nestedLvl < maxNestedMsgs) .tooManyNested
  checkMsgs disabledMsgTypes msgs isAuthzInnerMsg nestedLvl

/-- `AnteHandle`. -/
def anteHandle (msgs : List Msg) : Except LimiterError Unit :=
  checkDisabledMsgs disabledMsgTypes msgs false 1

/-! ## What is inside a message -/

/-- `sdk.MsgTypeURL`. -/
def Msg.typeURL : Msg → String
  | .exec _ => "/cosmos.authz.v1beta1.MsgExec"
  | .grant _ => "/cosmos.authz.v1beta1.MsgGrant"
  | .other url => url

/-- The messages inside some `MsgExec`, at any depth. -/
def inside : List Msg → List Msg
  | [] => []
  | .exec inner :: rest => inner ++ inside inner ++ inside rest
  | .grant _ :: rest => inside rest
  | .other _ :: rest => inside rest

/-- The types that are granted, at any level. -/
def granted : List Msg → List String
  | [] => []
  | .exec inner :: rest => granted inner ++ granted rest
  | .grant url :: rest => url :: granted rest
  | .other _ :: rest => granted rest

/-- The levels of nesting; the messages of the transaction are the first. -/
def depth : List Msg → Nat
  | [] => 1
  | .exec inner :: rest => max (depth inner + 1) (depth rest)
  | .grant _ :: rest => depth rest
  | .other _ :: rest => depth rest

/-- How far the counter is raised: a `MsgExec` raises it for the messages it wraps and for those
that follow. -/
def climb : List Msg → Nat
  | [] => 0
  | .exec inner :: rest => max (climb inner) (climb rest) + 1
  | .grant _ :: rest => climb rest
  | .other _ :: rest => climb rest

theorem depth_le (msgs : List Msg) : depth msgs ≤ climb msgs + 1 := by
  induction msgs using depth.induct with
  | case1 => rw [depth, climb]
  | case2 => rw [depth, climb]; omega
  | case3 _ _ ih | case4 _ _ ih => rwa [depth, climb]

/-- What the limiter is for. -/
structure Permitted (msgs : List Msg) : Prop where
  inside : ∀ m ∈ inside msgs, m.typeURL ∉ disabledMsgTypes
  granted : ∀ url ∈ granted msgs, url ∉ disabledMsgTypes
  depth : depth msgs < maxNestedMsgs

/-! ## What the limiter accepts -/

/-- What the limiter looks up: the granted types, and the types of ordinary messages inside a
`MsgExec`. -/
structure Clean (isAuthzInnerMsg : Bool) (msgs : List Msg) : Prop where
  granted : ∀ url ∈ granted msgs, url ∉ disabledMsgTypes
  inside : ∀ url, .other url ∈ Ante.inside msgs → url ∉ disabledMsgTypes
  listed : isAuthzInnerMsg → ∀ url, .other url ∈ msgs → url ∉ disabledMsgTypes

variable {disabledMsgTypes}

theorem isDisabledMsg_eq_false {url : String} :
    isDisabledMsg disabledMsgTypes url = false ↔ url ∉ disabledMsgTypes := by
  rw [isDisabledMsg, any_eq_false]
  constructor
  · intro h hmem
    exact h url hmem (by simp)
  · rintro h _ hmem heq
    exact h (of_decide_eq_true heq ▸ hmem)

theorem clean_nil : Clean disabledMsgTypes b [] := by
  refine ⟨?_, ?_, ?_⟩
  · simp [granted]
  · simp [inside]
  · simp

theorem clean_exec {inner : List Msg} : Clean disabledMsgTypes b (.exec inner :: rest) ↔
      Clean disabledMsgTypes true inner ∧ Clean disabledMsgTypes b rest := by
  constructor
  · rintro ⟨hgranted, hinside, hlisted⟩
    simp only [granted, inside, mem_append] at hgranted hinside
    refine ⟨⟨?_, ?_, ?_⟩, ?_, ?_, ?_⟩
    · exact fun url hurl => hgranted url (.inl hurl)
    · exact fun url hurl => hinside url (.inl (.inr hurl))
    · exact fun _ url hurl => hinside url (.inl (.inl hurl))
    · exact fun url hurl => hgranted url (.inr hurl)
    · exact fun url hurl => hinside url (.inr hurl)
    · exact fun hb url hurl => hlisted hb url (mem_cons_of_mem _ hurl)
  · rintro ⟨hinner, hrest⟩
    refine ⟨?_, ?_, ?_⟩
    · intro url hurl
      rw [granted, mem_append] at hurl
      exact hurl.elim (hinner.granted url) (hrest.granted url)
    · intro url hurl
      rw [inside, mem_append, mem_append] at hurl
      obtain (hurl | hurl) | hurl := hurl
      · exact hinner.listed rfl url hurl
      · exact hinner.inside url hurl
      · exact hrest.inside url hurl
    · intro hb url hurl
      obtain hurl | hurl := mem_cons.mp hurl
      · cases hurl
      · exact hrest.listed hb url hurl

theorem clean_grant : Clean disabledMsgTypes b (.grant type :: rest) ↔
      type ∉ disabledMsgTypes ∧ Clean disabledMsgTypes b rest := by
  constructor
  · rintro ⟨hgranted, hinside, hlisted⟩
    simp only [granted, inside, mem_cons] at hgranted hinside
    refine ⟨hgranted type (.inl rfl), ?_, hinside, ?_⟩
    · exact fun url hurl => hgranted url (.inr hurl)
    · exact fun hb url hurl => hlisted hb url (mem_cons_of_mem _ hurl)
  rintro ⟨htype, hrest⟩
  refine ⟨?_, ?_, ?_⟩
  · intro url hurl
    rw [granted, mem_cons] at hurl
    obtain rfl | hurl := hurl
    · exact htype
    · exact hrest.granted url hurl
  · rw [inside]
    exact hrest.inside
  · intro hb url hurl
    obtain hurl | hurl := mem_cons.mp hurl
    · cases hurl
    · exact hrest.listed hb url hurl

theorem clean_other : Clean disabledMsgTypes b (.other type :: rest) ↔
      (b → type ∉ disabledMsgTypes) ∧ Clean disabledMsgTypes b rest := by
  constructor
  · rintro ⟨hgranted, hinside, hlisted⟩
    rw [granted] at hgranted
    rw [inside] at hinside
    refine ⟨fun hb => hlisted hb type mem_cons_self, hgranted, hinside, ?_⟩
    exact fun hb url hurl => hlisted hb url (mem_cons_of_mem _ hurl)
  rintro ⟨htype, hrest⟩
  refine ⟨?_, ?_, ?_⟩
  · rw [granted]
    exact hrest.granted
  · rw [inside]
    exact hrest.inside
  intro hb url hurl
  obtain hurl | hurl := mem_cons.mp hurl
  · cases hurl
    exact htype hb
  · exact hrest.listed hb url hurl

variable (msgs : List Msg)

theorem checkMsgs_eq_ok_iff (b : Bool) (lvl : Nat) (hlvl : lvl < maxNestedMsgs) :
    checkMsgs disabledMsgTypes msgs b lvl = .ok () ↔
      lvl + climb msgs < maxNestedMsgs ∧ Clean disabledMsgTypes b msgs := by
  -- along the recursion of the loop: into a `MsgExec`, and on to the rest
  induction msgs, b, lvl using checkMsgs.induct with
  | case1 =>
    rw [checkMsgs, climb]
    exact iff_of_true rfl ⟨hlvl, clean_nil⟩
  | case2 _ _ _ lvl ihinner ihrest =>
    rw [checkMsgs, require_bind_ok, bind_ok, clean_exec]
    constructor
    · rintro ⟨hnext, _, hinner, hrest⟩
      obtain ⟨hclimb, hclean⟩ := (ihinner hnext).mp hinner
      obtain ⟨_, hclean'⟩ := (ihrest hnext).mp hrest
      refine ⟨?_, hclean, hclean'⟩
      rw [climb]
      omega
    · rintro ⟨hclimb, hclean, hclean'⟩
      rw [climb] at hclimb
      have hnext : lvl + 1 < maxNestedMsgs := by omega
      exact ⟨hnext, (), (ihinner hnext).mpr ⟨by omega, hclean⟩,
        (ihrest hnext).mpr ⟨by omega, hclean'⟩⟩
  | case3 _ _ _ _ ih =>
    rw [checkMsgs, require_bind_ok, ih hlvl, clean_grant, isDisabledMsg_eq_false, climb]
    exact and_left_comm
  | case4 _ _ _ _ ih =>
    rw [checkMsgs, require_bind_ok, ih hlvl, clean_other, ← isDisabledMsg_eq_false, not_and,
      Bool.not_eq_true, climb]
    exact and_left_comm

theorem anteHandle_eq_ok_iff : anteHandle disabledMsgTypes msgs = .ok () ↔
      climb msgs + 1 < maxNestedMsgs ∧ Clean disabledMsgTypes false msgs := by
  rw [anteHandle, checkDisabledMsgs, require_bind_ok, checkMsgs_eq_ok_iff _ _ _ (by decide),
    Nat.add_comm 1]
  exact and_iff_right (by decide)

/-- The authz messages inside a `MsgExec` are not disabled: the limiter does not look them up. -/
def InnerAuthzEnabled (disabledMsgTypes : List String) (msgs : List Msg) : Prop :=
  ∀ m ∈ inside msgs, (∀ url, m ≠ .other url) → m.typeURL ∉ disabledMsgTypes

theorem permitted_iff : Permitted disabledMsgTypes msgs ↔
      Clean disabledMsgTypes false msgs ∧ depth msgs < maxNestedMsgs ∧
        InnerAuthzEnabled disabledMsgTypes msgs := by
  constructor
  · intro h
    refine ⟨⟨h.granted, fun url hurl => h.inside _ hurl, fun hb => by cases hb⟩, h.depth, ?_⟩
    exact fun m hm _ => h.inside m hm
  rintro ⟨hclean, hdepth, henabled⟩
  refine ⟨?_, hclean.granted, hdepth⟩
  intro m hm
  cases m with
  | exec inner | grant type => exact henabled _ hm fun url heq => by cases heq
  | other type => exact hclean.inside type hm

/-- `n` executions, each wrapped by the one before it or behind it in the same list. -/
inductive Staircase : List Msg → Nat → Prop where
  | none {msgs : List Msg} : Staircase msgs 0
  | skip {m : Msg} {rest : List Msg} {n : Nat} : Staircase rest n → Staircase (m :: rest) n
  | wrapped {inner rest : List Msg} {n : Nat} : Staircase inner n →
      Staircase (.exec inner :: rest) (n + 1)
  | behind {inner rest : List Msg} {n : Nat} : Staircase rest n →
      Staircase (.exec inner :: rest) (n + 1)

theorem Staircase.le_climb {n : Nat} (h : Staircase msgs n) : n ≤ climb msgs := by
  induction h with
  | none => exact Nat.zero_le _
  | @skip m _ _ _ ih =>
    cases m with
    | exec => rw [climb]; omega
    | grant | other => rwa [climb]
  | wrapped _ ih | behind _ ih => rw [climb]; omega

theorem staircase_iff {n : Nat} : Staircase msgs n ↔ n ≤ climb msgs := by
  refine ⟨Staircase.le_climb msgs, ?_⟩
  induction msgs using climb.induct generalizing n with
  | case1 =>
    intro h
    rw [climb, Nat.le_zero] at h
    subst h
    exact .none
  | case2 inner rest ihinner ihrest =>
    intro h
    cases n with
    | zero => exact .none
    | succ n =>
      rw [climb, Nat.add_le_add_iff_right, le_max_iff] at h
      exact h.elim (fun h => .wrapped (ihinner h)) fun h => .behind (ihrest h)
  | case3 _ _ ih | case4 _ _ ih =>
    intro h
    rw [climb] at h
    exact .skip (ih h)

/-- The limiter accepts exactly what it is for, except on two kinds of messages with nothing in them
that it looks up: those with a staircase of six executions, although they are permitted; and those
without one, although a disabled authz message is inside an execution. -/
theorem limiter_exact_iff (disabledMsgTypes : List String) (msgs : List Msg) :
    (anteHandle disabledMsgTypes msgs = .ok () ↔ Permitted disabledMsgTypes msgs) ↔
      (Clean disabledMsgTypes false msgs →
        ¬ (Staircase msgs (maxNestedMsgs - 1) ∧ depth msgs < maxNestedMsgs ∧
          InnerAuthzEnabled disabledMsgTypes msgs) ∧
        ¬ (¬ Staircase msgs (maxNestedMsgs - 1) ∧ ¬ InnerAuthzEnabled disabledMsgTypes msgs)) := by
  have hdepth := depth_le msgs
  rw [anteHandle_eq_ok_iff, permitted_iff, and_comm, and_congr_right_iff, staircase_iff]
  refine imp_congr_right fun _ => ?_
  unfold maxNestedMsgs
  by_cases henabled : InnerAuthzEnabled disabledMsgTypes msgs
  · simp only [henabled, and_true, not_true, and_false, not_false_iff]
    omega
  · simp only [henabled, and_false, not_false_iff, and_true, true_and, iff_false]
    omega

/-- Six messages that each execute one transfer: nothing is nested deeper than two levels, and the
limiter rejects them. -/
theorem siblings_rejected : anteHandle ["/ethermint.evm.v1.MsgEthereumTx"]
        (.replicate 6 (.exec [.other "/cosmos.bank.v1beta1.MsgSend"])) = .error .tooManyNested ∧
    Permitted ["/ethermint.evm.v1.MsgEthereumTx"]
      (.replicate 6 (.exec [.other "/cosmos.bank.v1beta1.MsgSend"])) := by
  refine ⟨?_, ?_, ?_, ?_⟩
  · simp [anteHandle, checkDisabledMsgs, checkMsgs, List.replicate, isDisabledMsg, maxNestedMsgs,
      require]
    rfl
  · simp [List.replicate, inside, Msg.typeURL]
  · simp [List.replicate, granted]
  · simp [List.replicate, depth, maxNestedMsgs]

end HyperPax.Ante
