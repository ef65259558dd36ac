/-
  Oracle/Submissions.lean --- who may store which price, and how often.

  A submission is stored under the market and the submitter's address AS IT WAS
  WRITTEN.  The message path keeps the signer's own spelling, the precompile writes
  the account's lower-case text, and a bech32 reader accepts a text in capitals too;
  so one account owns one record only while its messages are signed in the form the
  chain itself writes (`oneVote_of_canonical_signers`, `votes_twice`).

  The precompile asks one question, whether its caller is a validator, where the
  message path asks five.  The two agree exactly on the calls that meet the other
  four (`paths_agree_iff_admissible`), and a run whose calls meet them stores
  nothing else.
-/
import HyperPax.Lib.Revert
import HyperPax.Oracle.Keeper

set_option autoImplicit false

namespace HyperPax.Oracle

open Lib KVStore MarketId List State Store PriceSubmission

/-! ## What a submission step stores -/

/-- What the message path asks of a submission, apart from who sends it. -/
structure Admissible (store : Store) (m : MarketId) (price confidence : Int) : Prop where
  price_pos : 0 < price
  confidence_pos : 0 < confidence
  confidence_le : confidence ≤ defaultMaxConfidence
  market_ne_zero : m ≠ .zero
  supported : store.getAllSupportedMarkets ≠ [] → store.isSupportedMarket m

variable {msg : MsgSubmitPrice} {s s' : State} {m : MarketId} {store : Store}
  {P : PriceSubmission → Prop} {sub : PriceSubmission} {price : Int}

theorem validateBasic_eq_ok : msg.validateBasic = .ok () ↔
      (∃ account, accAddressFromBech32 msg.signer = some account) ∧
        (∃ m : MarketId, msg.marketId = m.bytes ∧ m ≠ .zero) ∧
        (∃ price, msg.getPriceBigInt = some price ∧ 0 < price) ∧
        ∃ confidence, msg.getConfidenceBigInt = some confidence ∧ 0 < confidence ∧
          confidence ≤ defaultMaxConfidence := by
  have hmarket : (∃ m : MarketId, msg.marketId = m.bytes ∧ m ≠ .zero) ↔
      msg.marketId.length = 32 ∧ msg.marketId ≠ .replicate 32 0 := by
    constructor
    · rintro ⟨m, hm, hne⟩
      refine ⟨by rw [hm, m.length_bytes], ?_⟩
      intro hzero
      refine hne ?_
      obtain ⟨_, hlen⟩ := m
      rw [hm] at hzero
      simpa [MarketId.zero] using hzero
    · rintro ⟨hlen, hne⟩
      refine ⟨⟨msg.marketId, hlen⟩, rfl, ?_⟩
      intro hzero
      exact hne (congrArg MarketId.bytes hzero)
  rw [hmarket, MsgSubmitPrice.validateBasic]
  cases accAddressFromBech32 msg.signer with
  | none => simp
  | some => cases msg.getPriceBigInt <;> cases msg.getConfidenceBigInt <;> simp <;> grind

/-- A delivered message: a validator's, and admissible. -/
theorem deliver_eq_ok : s.deliver msg = .ok s' ↔
      ∃ (account : List UInt8) (m : MarketId) (price confidence : Int),
        accAddressFromBech32 msg.signer = some account ∧ s.isValidator account ∧
        msg.marketId = m.bytes ∧ msg.getPriceBigInt = some price ∧
        msg.getConfidenceBigInt = some confidence ∧ Admissible s.store m price confidence ∧
        s' = s.withStore (s.store.setPriceSubmission
          ⟨msg.signer, m, price, confidence, s.block.height, s.block.time⟩) := by
  constructor
  · intro h
    have hbasic : msg.validateBasic = .ok () := by
      cases hv : msg.validateBasic with
      | error => rw [deliver, hv] at h; cases h
      | ok => rfl
    rw [deliver, hbasic] at h
    obtain ⟨⟨account, hacc⟩, ⟨m, hm, hzero⟩, ⟨price, hprice, hpos⟩, confidence, hconf,
      hcpos, hcle⟩ := validateBasic_eq_ok.mp hbasic
    replace h : s.submitPrice msg = .ok s' := h
    simp only [submitPrice, hacc, hprice, hconf, hm, ofBytes_bytes] at h
    split at h
    · cases h
    rename_i hval
    split at h
    · cases h
    rename_i hmarkets
    refine ⟨account, m, price, confidence, hacc, not_not.mp hval, hm, hprice,
      hconf, ⟨hpos, hcpos, hcle, hzero, ?_⟩, (Except.ok.inj h).symm⟩
    intro hne
    by_contra hunsupported
    exact hmarkets ⟨length_pos_iff.mpr hne, hunsupported⟩
  · rintro ⟨account, m, price, confidence, hacc, hval, hm, hprice, hconf, hadm, rfl⟩
    have hbasic : msg.validateBasic = .ok () :=
      validateBasic_eq_ok.mpr ⟨⟨account, hacc⟩, ⟨m, hm, hadm.market_ne_zero⟩,
        ⟨price, hprice, hadm.price_pos⟩, confidence, hconf, hadm.confidence_pos,
        hadm.confidence_le⟩
    have hmarkets : ¬ (0 < s.store.getAllSupportedMarkets.length ∧
        ¬ s.store.isSupportedMarket m) := by
      rintro ⟨hlen, hunsupported⟩
      exact hunsupported (hadm.supported (length_pos_iff.mp hlen))
    rw [deliver, hbasic]
    show s.submitPrice msg = _
    simp only [submitPrice, hacc, hprice, hconf, hm, ofBytes_bytes]
    rw [if_neg (not_not.mpr hval), if_neg hmarkets]

theorem precompileSubmitPrice_eq_ok {caller : Address} {price : Sint 256} {confidence : Uint 256} :
    s.precompileSubmitPrice caller m price confidence = .ok s' ↔ s.isValidator caller.bytes ∧
        s' = s.withStore (s.store.setPriceSubmission
          ⟨accAddressString caller.bytes, m, price.val, confidence.val, s.block.height,
            s.block.time⟩) := by
  unfold precompileSubmitPrice
  split
  · rename_i hno
    simp [hno]
  rename_i hval
  rw [Except.ok.injEq, eq_comm (b := s')]
  exact ⟨fun h => ⟨not_not.mp hval, h⟩, fun h => h.2⟩

/-- What a step stores: the submission of a message or of a call. -/
def Submits (s : State) (sub : PriceSubmission) : Label → Prop
  | .message msg =>
    (∃ account, accAddressFromBech32 msg.signer = some account) ∧ sub.validatorAddr = msg.signer ∧
      Admissible s.store sub.marketId sub.price sub.confidence
  | .precompile caller m price confidence =>
    s.isValidator caller.bytes ∧ sub.validatorAddr = accAddressString caller.bytes ∧
      sub.marketId = m ∧ sub.price = price.val ∧ sub.confidence = confidence.val
  | .advance _ _ => False

theorem step_cases {l : Label} (h : step s l = some s') :
    (∃ sub, Submits s sub l ∧ s'.store = s.store.setPriceSubmission sub) ∨ s'.store = s.store := by
  cases l with
  | message =>
    obtain ⟨account, _, _, _, hacc, -, -, -, -, hadm, rfl⟩ :=
      deliver_eq_ok.mp (toOption_eq_some.mp h)
    exact .inl ⟨_, ⟨⟨account, hacc⟩, rfl, hadm⟩, rfl⟩
  | precompile =>
    obtain ⟨hval, rfl⟩ := precompileSubmitPrice_eq_ok.mp (toOption_eq_some.mp h)
    exact .inl ⟨_, ⟨hval, rfl, rfl, rfl, rfl⟩, rfl⟩
  | advance =>
    cases h
    exact .inr rfl

/-! ## What a run stores -/

/-- Every stored submission was written as one that meets `P`, under its own market and
address. -/
def Written (P : PriceSubmission → Prop) (store : Store) : Prop :=
  ∀ k data, store[k]? = some (.submission data) →
    ∃ sub, P sub ∧ k = priceSubmissionKey sub.marketId sub.validatorAddr ∧ data = sub.toJSON

/-- The two stores know the same markets. -/
def SameMarkets (store store' : Store) : Prop :=
  (store'.getAllSupportedMarkets ≠ [] ↔ store.getAllSupportedMarkets ≠ []) ∧
    ∀ m, store'.isSupportedMarket m = store.isSupportedMarket m

theorem SameMarkets.admissible_iff {store' : Store} (h : SameMarkets store store')
    {confidence : Int} :
    Admissible store' m price confidence ↔ Admissible store m price confidence := by
  constructor
  · rintro ⟨h₁, h₂, h₃, h₄, h₅⟩
    exact ⟨h₁, h₂, h₃, h₄, fun hne => (h.2 m).symm.trans (h₅ (h.1.mpr hne))⟩
  · rintro ⟨h₁, h₂, h₃, h₄, h₅⟩
    exact ⟨h₁, h₂, h₃, h₄, fun hne => (h.2 m).trans (h₅ (h.1.mp hne))⟩

theorem getAllSupportedMarkets_ne_nil : store.getAllSupportedMarkets ≠ [] ↔
      ∃ k market, store[k]? = some (.market market) ∧ supportedMarketKeyPrefix <+: k := by
  constructor
  · intro hne
    obtain ⟨market, hmarket⟩ := exists_mem_of_ne_nil _ hne
    obtain ⟨⟨k, v⟩, hkv, hv⟩ := mem_filterMap.mp hmarket
    obtain ⟨hget, hpre⟩ := mem_scan_iff.mp hkv
    cases v with
    | market m => exact ⟨k, m, hget, hpre⟩
    | submission | params => cases hv
  · rintro ⟨k, market, hget, hpre⟩
    have hmem : market ∈ store.getAllSupportedMarkets :=
      mem_filterMap.mpr ⟨(k, .market market), mem_scan_iff.mpr ⟨hget, hpre⟩, rfl⟩
    exact ne_nil_of_mem hmem

theorem not_supportedMarketKeyPrefix (m : MarketId) (a : List UInt8) :
    ¬ supportedMarketKeyPrefix <+: priceSubmissionKey m a := by
  rintro ⟨_, hrest⟩
  exact absurd (List.cons.inj hrest).1 (by decide)

theorem sameMarkets_setPriceSubmission (store : Store) (sub : PriceSubmission) :
    SameMarkets store (store.setPriceSubmission sub) := by
  constructor
  · rw [getAllSupportedMarkets_ne_nil, getAllSupportedMarkets_ne_nil]
    refine exists_congr fun k => exists_congr fun market => and_congr_left ?_
    intro hpre
    rw [setPriceSubmission, get_insert_of_ne]
    rintro rfl
    exact not_supportedMarketKeyPrefix _ _ hpre
  · intro _
    rw [isSupportedMarket, isSupportedMarket, setPriceSubmission, get_insert_of_ne]
    intro hkey
    exact absurd (List.cons.inj hkey).1 (by decide)

theorem Written.setPriceSubmission (h : Written P store) (hsub : P sub) :
    Written P (store.setPriceSubmission sub) := by
  intro k data hget
  rw [Store.setPriceSubmission, get_insert] at hget
  split at hget
  · rename_i hk
    cases hget
    exact ⟨sub, hsub, hk.symm, rfl⟩
  · exact h k data hget

/-- A genesis without submissions stores none. -/
theorem written_initial (h : s.Initial) : Written P s.store := by
  obtain ⟨gs, hnone, hinit⟩ := h
  have hmarkets : ∀ (markets : List SupportedMarket) (store : Store), Written P store →
      Written P (markets.foldl .setSupportedMarket store) := by
    intro markets
    induction markets with
    | nil =>
      intro store hstore
      exact hstore
    | cons _ _ ih =>
      intro _ hstore
      refine ih _ ?_
      intro k data hget
      rw [setSupportedMarket, get_insert] at hget
      split at hget
      · cases hget
      · exact hstore k data hget
  unfold initGenesis at hinit
  rw [hnone] at hinit
  cases hvalid : gs.params.validate with
  | error =>
    rw [setParams, hvalid] at hinit
    cases hinit
  | ok =>
    rw [setParams, hvalid] at hinit
    have hstore : gs.supportedMarkets.foldl setSupportedMarket
        ((∅ : Store).insert paramsKey (.params gs.params)) = s.store := Except.ok.inj hinit
    rw [← hstore]
    refine hmarkets _ _ ?_
    intro _ _ hget
    rw [get_insert] at hget
    split at hget
    · cases hget
    · simp at hget

theorem written_of_path {ok : State → Label → Prop} {s₀ : State} (hinit : s₀.Initial)
    (hP : ∀ t l sub, SameMarkets s₀.store t.store → ok t l → Submits t sub l → P sub)
    (hpath : Path step ok s₀ s) : Written P s.store ∧ SameMarkets s₀.store s.store := by
  refine Path.invariant (I := fun t => Written P t.store ∧ SameMarkets s₀.store t.store) ?_
    ⟨written_initial hinit, Iff.rfl, fun _ => rfl⟩ hpath
  rintro t l _ ⟨hwritten, hsame⟩ hok hstep
  obtain ⟨sub, hsub, hstore⟩ | hstore := step_cases hstep
  · rw [hstore]
    have hnext := sameMarkets_setPriceSubmission t.store sub
    exact ⟨hwritten.setPriceSubmission (hP t l sub hsame hok hsub), hnext.1.trans hsame.1,
      fun m => (hnext.2 m).trans (hsame.2 m)⟩
  · rw [hstore]
    exact ⟨hwritten, hsame⟩

/-! ## One vote for each account -/

/-- The account whose address a submission carries. -/
def PriceSubmission.account (sub : PriceSubmission) : Option (List UInt8) :=
  accAddressFromBech32 sub.validatorAddr

/-- The accounts with a fresh submission for a market. -/
def Store.freshAccounts (store : Store) (block : Block) (m : MarketId) : List (List UInt8) :=
  ((store.freshSubmissions block m).filterMap account).dedup

/-- No account has two submissions stored for a market, and the quorum of a median counts
the accounts behind it. -/
structure OneVote (store : Store) : Prop where
  unique : ∀ (m : MarketId) (a a' : List UInt8) (data data' : PriceSubmissionJSON)
    (account : List UInt8),
    store[priceSubmissionKey m a]? = some (.submission data) →
    store[priceSubmissionKey m a']? = some (.submission data') →
    accAddressFromBech32 data.validatorAddr = some account →
    accAddressFromBech32 data'.validatorAddr = some account → a = a'
  quorum : ∀ (block : Block) (m : MarketId) (price quorum timestamp : Int),
    store.getMedianPrice block m = .ok (price, quorum, timestamp) →
    quorum = (store.freshAccounts block m).length

/-- An address in the spelling the chain itself writes. -/
def Canonical (sub : PriceSubmission) : Prop :=
  ∃ account, sub.account = some account ∧ sub.validatorAddr = accAddressString account

theorem Canonical.validatorAddr_eq {sub' : PriceSubmission} (h : Canonical sub)
    (h' : Canonical sub') (hsame : sub.account = sub'.account) :
    sub.validatorAddr = sub'.validatorAddr := by
  obtain ⟨_, hacc, haddr⟩ := h
  obtain ⟨_, hacc', haddr'⟩ := h'
  rw [hacc, hacc', Option.some.injEq] at hsame
  rw [haddr, haddr', hsame]

theorem priceSubmissionKey_inj {m' : MarketId} {a a' : List UInt8} :
    priceSubmissionKey m a = priceSubmissionKey m' a' ↔ m = m' ∧ a = a' := by
  constructor
  · intro h
    obtain ⟨hm, ha⟩ := append_inj (List.cons.inj h).2 (by rw [m.length_bytes, m'.length_bytes])
    obtain ⟨_, _⟩ := m
    obtain ⟨_, _⟩ := m'
    exact ⟨by simpa using hm, ha⟩
  · rintro ⟨rfl, rfl⟩
    rfl

theorem Written.parse_scan (h : Written P store) {kv : Key × Value}
    (hkv : kv ∈ store.scan (priceSubmissionsByMarketPrefix m))
    (hsub : (kv.2.submission?.bind fun data => data.parse m) = some sub) :
    P sub ∧ kv.1 = priceSubmissionKey m sub.validatorAddr := by
  obtain ⟨k, v⟩ := kv
  obtain ⟨hget, hpre⟩ := mem_scan_iff.mp hkv
  cases v with
  | submission data =>
    obtain ⟨written, hP, hk, rfl⟩ := h k data hget
    have hmarket : written.marketId = m := by
      obtain ⟨rest, hrest⟩ := hpre
      rw [hk] at hrest
      exact (priceSubmissionKey_inj.mp (show priceSubmissionKey m rest = _ from hrest)).1.symm
    subst hmarket
    have hparse : written.toJSON.parse written.marketId = some sub := hsub
    rw [parse_toJSON, Option.some.injEq] at hparse
    subst hparse
    exact ⟨hP, hk⟩
  | params | market => cases hsub

theorem quorum_of_getMedianPrice {block : Block} {quorum timestamp : Int}
    (h : store.getMedianPrice block m = .ok (price, quorum, timestamp)) :
    quorum = (store.freshSubmissions block m).length := by
  unfold getMedianPrice at h
  dsimp only at h
  split at h
  · cases h
  split at h
  · cases h
  split at h
  · cases h
  · cases h
    rfl

theorem oneVote_of_written (h : Written Canonical store) : OneVote store := by
  constructor
  · intro m _ _ data _ account hget hget' hacc hacc'
    obtain ⟨sub, hsub, hkey, rfl⟩ := h _ _ hget
    obtain ⟨sub', hsub', hkey', rfl⟩ := h _ _ hget'
    have hsame : sub.account = sub'.account := hacc.trans hacc'.symm
    rw [(priceSubmissionKey_inj.mp hkey).2, (priceSubmissionKey_inj.mp hkey').2]
    exact hsub.validatorAddr_eq hsub' hsame
  intro block m _ _ _ hmedian
  -- every fresh submission shows its key, so no two share an address, nor an account
  have hcanon : ∀ sub ∈ store.freshSubmissions block m, Canonical sub := by
    intro sub hsub
    obtain ⟨kv, hkv, hparse⟩ := mem_filterMap.mp (mem_filter.mp hsub).1
    exact (h.parse_scan hkv hparse).1
  have haddr : ((store.freshSubmissions block m).map (·.validatorAddr)).Nodup := by
    have hkeys := nodup_map_filterMap_scan store (priceSubmissionsByMarketPrefix m)
      (fun kv => kv.2.submission?.bind fun data => data.parse m)
      (fun sub => priceSubmissionKey m sub.validatorAddr)
      (fun kv hkv sub hsub => (h.parse_scan hkv hsub).2.symm)
    have hall : ((store.getAllSubmissionsForMarket m).map (·.validatorAddr)).Nodup := by
      refine List.Nodup.of_map (priceSubmissionKey m) ?_
      rw [List.map_map]
      exact hkeys
    exact hall.sublist (filter_sublist.map _)
  have hnodup : ((store.freshSubmissions block m).filterMap account).Nodup := by
    rw [List.Nodup, pairwise_filterMap]
    refine (pairwise_map.mp haddr).imp_of_mem ?_
    intro sub sub' hsub hsub' hne _ hacc _ hacc' hsame
    refine hne ((hcanon sub hsub).validatorAddr_eq (hcanon sub' hsub') ?_)
    rw [hacc, hacc', hsame]
  have hlength : ((store.freshSubmissions block m).filterMap account).length =
      (store.freshSubmissions block m).length := by
    rw [filterMap_length_eq_length]
    intro sub hsub
    obtain ⟨_, hacc, -⟩ := hcanon sub hsub
    rw [hacc]
    rfl
  rw [quorum_of_getMedianPrice hmedian, freshAccounts, hnodup.dedup, hlength]

/-- A message whose signer is spelled as the chain itself writes the account. -/
def CanonicalSigner : Label → Prop
  | .message msg =>
    ∀ account ∈ accAddressFromBech32 msg.signer, msg.signer = accAddressString account
  | _ => True

instance (l : Label) : Decidable (CanonicalSigner l) := by
  unfold CanonicalSigner
  split <;> infer_instance

/-- While every message is signed with the account's canonical text, each account has at
most one submission stored for each market, and the quorum counts accounts. -/
theorem oneVote_of_canonical_signers {s₀ s : State} (hinit : s₀.Initial)
    (hpath : Path step (fun _ l => CanonicalSigner l) s₀ s) : OneVote s.store := by
  refine oneVote_of_written (written_of_path hinit ?_ hpath).1
  intro _ l _ _ hok hsubmits
  cases l with
  | message =>
    obtain ⟨⟨account, hacc⟩, haddr, -⟩ := hsubmits
    refine ⟨account, ?_, ?_⟩
    · rw [PriceSubmission.account, haddr, hacc]
    · rw [haddr]
      exact hok account hacc
  | precompile caller =>
    obtain ⟨-, haddr, -⟩ := hsubmits
    refine ⟨caller.bytes, ?_, haddr⟩
    rw [account, haddr, accAddressFromBech32_string]
  | advance => exact hsubmits.elim

/-- A chain that starts with the default parameters and no supported markets. -/
def State.launch (validators : List (List UInt8)) : State :=
  ⟨(∅ : Store).insert paramsKey (.params defaultParams), ⟨1, 0⟩, validators⟩

theorem State.launch_initial (validators : List (List UInt8)) : (launch validators).Initial :=
  ⟨⟨defaultParams, [], []⟩, rfl, rfl⟩

/-- A validator's account, for the runs below. -/
def someValidator : Address := .ofNat 7

/-- A market, for the runs below. -/
def someMarket : MarketId := .ofBytes [0xe7]

/-- The validator votes by message and again through the precompile: one record. -/
theorem oneVote_message_then_call :
    ∃ s, Path step (fun _ l => CanonicalSigner l) (.launch [someValidator.bytes]) s ∧
      (s.store.getMedianPrice s.block someMarket).toOption = some (9, 1, 0) ∧ OneVote s.store := by
  obtain ⟨s, hpath, hmedian⟩ :
      ∃ s, Path step (fun _ l => CanonicalSigner l) (.launch [someValidator.bytes]) s ∧
        (s.store.getMedianPrice s.block someMarket).toOption = some (9, 1, 0) :=
    exists_path (launch [someValidator.bytes])
      [.message (.new (accAddressString someValidator.bytes) someMarket 5 1),
        .precompile someValidator someMarket (.wrap 9) (.truncate 1)]
      (by decide +kernel)
  exact ⟨s, hpath, hmedian, oneVote_of_canonical_signers (launch_initial _) hpath⟩

/-- The same validator signs one message with its text in lower case and one with it in
capitals: two records, and a quorum of two. -/
theorem votes_twice : ∃ s, Path step (fun _ _ => True) (.launch [someValidator.bytes]) s ∧
      ¬ OneVote s.store := by
  obtain ⟨s, hpath, hmedian, haccounts⟩ :
      ∃ s, Path step (fun _ _ => True) (.launch [someValidator.bytes]) s ∧
        (s.store.getMedianPrice s.block someMarket).toOption = some (5, 2, 0) ∧
        (s.store.freshAccounts s.block someMarket).length = 1 :=
    exists_path (launch [someValidator.bytes])
      [.message (.new (accAddressString someValidator.bytes) someMarket 5 1),
        .message (.new ((accAddressString someValidator.bytes).map Bech32.upper) someMarket 9 1)]
      (by decide +kernel)
  refine ⟨s, hpath, ?_⟩
  intro hone
  have hquorum := hone.quorum _ _ _ _ _ (toOption_eq_some.mp hmedian)
  rw [haccounts] at hquorum
  exact absurd hquorum (by decide)

/-! ## The two paths -/

section

variable (s : State) (caller : Address) (m : MarketId) (price : Sint 256) (confidence : Uint 256)

/-- A call of the precompile and the same account's message with the same values: one is
accepted exactly when the other is, with the same outcome. -/
def PathsAgree : Prop :=
  ∀ s', s.precompileSubmitPrice caller m price confidence = .ok s' ↔
    s.deliver (.new (accAddressString caller.bytes) m price.val confidence.val) = .ok s'

variable {s caller m price confidence}

theorem deliver_new_eq_ok :
    s.deliver (.new (accAddressString caller.bytes) m price.val confidence.val) = .ok s' ↔
      s.isValidator caller.bytes ∧ Admissible s.store m price.val confidence.val ∧
        s' = s.withStore (s.store.setPriceSubmission
          ⟨accAddressString caller.bytes, m, price.val, confidence.val, s.block.height,
            s.block.time⟩) := by
  have hprice : (MsgSubmitPrice.new (accAddressString caller.bytes) m price.val
      confidence.val).getPriceBigInt = some price.val := parseInt_ofBytes_decimalBytes _
  have hconf : (MsgSubmitPrice.new (accAddressString caller.bytes) m price.val
      confidence.val).getConfidenceBigInt = some (confidence.val : Int) :=
    parseInt_ofBytes_decimalBytes _
  have hsigner := accAddressFromBech32_string caller
  rw [deliver_eq_ok]
  constructor
  · rintro ⟨account, m', price', confidence', hacc, hval, hm, hprice', hconf', hadm, rfl⟩
    obtain rfl : caller.bytes = account := Option.some.inj (hsigner.symm.trans hacc)
    obtain rfl : price.val = price' := Option.some.inj (hprice.symm.trans hprice')
    obtain rfl : (confidence.val : Int) = confidence' :=
      Option.some.inj (hconf.symm.trans hconf')
    obtain rfl : m = m' := by
      have hbytes := congrArg MarketId.ofBytes hm
      rwa [ofBytes_bytes, MsgSubmitPrice.new, ofBytes_bytes] at hbytes
    exact ⟨hval, hadm, rfl⟩
  · rintro ⟨hval, hadm, rfl⟩
    exact ⟨caller.bytes, m, price.val, confidence.val, hsigner, hval, rfl, hprice, hconf, hadm, rfl⟩

theorem pathsAgree_iff : PathsAgree s caller m price confidence ↔
      (s.isValidator caller.bytes → Admissible s.store m price.val confidence.val) := by
  simp only [PathsAgree, precompileSubmitPrice_eq_ok, deliver_new_eq_ok]
  constructor
  · intro h hval
    exact ((h _).mp ⟨hval, rfl⟩).2.1
  intro h _
  constructor
  · rintro ⟨hval, rfl⟩
    exact ⟨hval, h hval, rfl⟩
  · rintro ⟨hval, -, rfl⟩
    exact ⟨hval, rfl⟩

end

/-- A validator's call of the precompile is one that the message path would accept. -/
def AdmissibleCall (s : State) : Label → Prop
  | .precompile caller m price confidence =>
    s.isValidator caller.bytes → Admissible s.store m price.val confidence.val
  | _ => True

/-- The two paths agree on a call exactly when it is admissible or not a validator's; and
in a run of such calls and of any messages, every stored submission is admissible. -/
theorem paths_agree_iff_admissible (s : State) :
    (∀ caller m price confidence, PathsAgree s caller m price confidence ↔
      (s.isValidator caller.bytes → Admissible s.store m price.val confidence.val)) ∧
    ∀ s₀, s₀.Initial → Path step AdmissibleCall s₀ s →
      ∀ k data, s.store[k]? = some (.submission data) →
        ∃ m price confidence, k = priceSubmissionKey m data.validatorAddr ∧
          data.price = formatInt price ∧ data.confidence = formatInt confidence ∧
          Admissible s.store m price confidence := by
  refine ⟨fun caller m price confidence => pathsAgree_iff, ?_⟩
  intro s₀ hinit hpath k data hget
  have hadmits : ∀ t l sub, SameMarkets s₀.store t.store → AdmissibleCall t l → Submits t sub l →
      Admissible s₀.store sub.marketId sub.price sub.confidence := by
    intro _ l sub hsame hok hsubmits
    refine hsame.admissible_iff.mp ?_
    cases l with
    | message => exact hsubmits.2.2
    | precompile =>
      obtain ⟨hval, -, hm, hprice, hconf⟩ := hsubmits
      rw [hm, hprice, hconf]
      exact hok hval
    | advance => exact hsubmits.elim
  obtain ⟨hwritten, hsame⟩ := written_of_path hinit hadmits hpath
  obtain ⟨sub, hadm, hkey, rfl⟩ := hwritten k data hget
  exact ⟨sub.marketId, sub.price, sub.confidence, hkey, rfl, rfl, hsame.admissible_iff.mpr hadm⟩

instance (store : Store) (m : MarketId) (price confidence : Int) :
    Decidable (Admissible store m price confidence) :=
  decidable_of_iff (0 < price ∧ 0 < confidence ∧ confidence ≤ defaultMaxConfidence ∧ m ≠ .zero ∧
      (store.getAllSupportedMarkets ≠ [] → store.isSupportedMarket m))
    ⟨fun ⟨h₁, h₂, h₃, h₄, h₅⟩ => ⟨h₁, h₂, h₃, h₄, h₅⟩,
      fun ⟨h₁, h₂, h₃, h₄, h₅⟩ => ⟨h₁, h₂, h₃, h₄, h₅⟩⟩

instance (s : State) (l : Label) : Decidable (AdmissibleCall s l) := by
  unfold AdmissibleCall
  split <;> infer_instance

/-- Both sides of the theorem at a validator's call with a price of nine. -/
theorem paths_agree_price_nine :
    PathsAgree (.launch [someValidator.bytes]) someValidator someMarket (.wrap 9) (.truncate 1) ∧
    ∃ s, Path step AdmissibleCall (.launch [someValidator.bytes]) s ∧
      ∃ k data, s.store[k]? = some (.submission data) ∧ ∃ m price confidence,
        k = priceSubmissionKey m data.validatorAddr ∧ data.price = formatInt price ∧
        data.confidence = formatInt confidence ∧ Admissible s.store m price confidence := by
  refine ⟨((paths_agree_iff_admissible _).1 _ _ _ _).mpr (by decide +kernel), ?_⟩
  obtain ⟨s, hpath, hget⟩ :
      ∃ s, Path step AdmissibleCall (.launch [someValidator.bytes]) s ∧
        s.store[priceSubmissionKey someMarket (accAddressString someValidator.bytes)]? =
          some (.submission ⟨accAddressString someValidator.bytes, "9", "1", 1, 0⟩) :=
    exists_path (launch [someValidator.bytes])
      [.precompile someValidator someMarket (.wrap 9) (.truncate 1)] (by decide +kernel)
  exact ⟨s, hpath, _, _, hget, (paths_agree_iff_admissible s).2 _ (launch_initial _) hpath _ _ hget⟩

/-- A validator stores a price of zero through the precompile; its message with the same
values is refused. -/
theorem paths_differ_on_zero_price :
    ¬ PathsAgree (.launch [someValidator.bytes]) someValidator someMarket (.wrap 0)
      (.truncate 1) := by
  rw [pathsAgree_iff]
  decide +kernel

end HyperPax.Oracle
