/-
  PaxSpot/Walk.lean --- what a whole run of the matching loop does.

  `Swept` describes the loop after a prefix of the opposing book: the fills it made, what
  it left alone, and what the visited entries look like now.  Each kind of iteration
  (`Exchange.visit_cases`) extends it by one entry, and `Exchange.walk_swept` is the
  description of the whole book.
-/
import HyperPax.PaxSpot.Fills

set_option autoImplicit false

namespace HyperPax.PaxSpot

open Lib PaxSpot.Order List

/-- What never changes of an order once it is written. -/
def Order.terms (o : Order) : Order :=
  { o with
    filledSize := .zero
    active := false }

section

variable {o o' : Order} (h : o.terms = o'.terms)

include h

theorem Order.trader_of_terms : o.trader = o'.trader := (congrArg Order.trader h :)

theorem Order.marketId_of_terms : o.marketId = o'.marketId := (congrArg Order.marketId h :)

theorem Order.side_of_terms : o.side = o'.side := (congrArg Order.side h :)

theorem Order.orderType_of_terms : o.orderType = o'.orderType := (congrArg Order.orderType h :)

theorem Order.offsetBps_of_terms : o.offsetBps = o'.offsetBps := (congrArg Order.offsetBps h :)

theorem Order.size_of_terms : o.size = o'.size := (congrArg Order.size h :)

end

variable {incomingId : Nat}

theorem Fill.Between.touches {f : Fill} {side : Side} {restingId : Nat} {taker maker : Address}
    (h : f.Between side incomingId restingId taker maker) (id : Nat) :
    (f.buyOrderId = id ∨ f.sellOrderId = id) ↔ (id = incomingId ∨ id = restingId) := by
  cases side with
  | buy =>
    obtain ⟨⟨rfl, rfl⟩, -⟩ := h
    simp only [eq_comm]
  | sell =>
    obtain ⟨⟨rfl, rfl⟩, -⟩ := h
    rw [or_comm]
    simp only [eq_comm]

/-! ## One iteration -/

namespace Exchange

variable (x : Exchange) (id : Nat)

theorem deactivate_self : (x.deactivate id).orders id = { x.orders id with active := false } :=
  Function.update_self _ _ _

theorem deactivate_of_ne {id' : Nat} (h : id' ≠ id) : (x.deactivate id).orders id' = x.orders id' :=
  Function.update_of_ne h _ _

theorem deactivate_terms (id' : Nat) :
    ((x.deactivate id).orders id').terms = (x.orders id').terms := by
  by_cases h : id' = id
  · subst h
    rw [deactivate_self]
    rfl
  · rw [deactivate_of_ne x id h]

theorem deactivate_filledSize (id' : Nat) :
    ((x.deactivate id).orders id').filledSize = (x.orders id').filledSize := by
  by_cases h : id' = id
  · subst h
    rw [deactivate_self]
  · rw [deactivate_of_ne x id h]

theorem deactivate_active (id' : Nat) :
    ((x.deactivate id).orders id').active ↔ id' ≠ id ∧ (x.orders id').active := by
  by_cases h : id' = id
  · subst h
    simp [deactivate_self]
  · simp [deactivate_of_ne x id h, h]

end Exchange

namespace Matched

variable {incomingId restingId : Nat} {oracle : Sint 256} {market : MarketState}
  {x x' : Exchange} {remaining left : Uint 128} {f : Fill}

variable (h : Matched incomingId restingId oracle market x remaining f x' left)

include h

theorem terms (id : Nat) : (x'.orders id).terms = (x.orders id).terms := by
  by_cases hinc : id = incomingId
  · obtain ⟨n, -, hn⟩ := h.incoming
    rw [hinc, hn]
    rfl
  by_cases hresting : id = restingId
  · obtain ⟨_, -, hn⟩ := h.resting
    rw [hresting, hn]
    rfl
  · rw [h.others id hinc hresting]

theorem filledSize (id : Nat) :
    (x'.orders id).filledSize.val = (x.orders id).filledSize.val + traded id [f] := by
  simp only [traded_singleton, h.between.touches]
  by_cases hinc : id = incomingId
  · obtain ⟨n, hn, horder⟩ := h.incoming
    rw [if_pos (.inl hinc), hinc, horder, ← hn]
  by_cases hresting : id = restingId
  · obtain ⟨_, hn, horder⟩ := h.resting
    rw [if_pos (.inr hresting), hresting, horder, ← hn]
  · rw [if_neg (not_or.mpr ⟨hinc, hresting⟩), h.others id hinc hresting, Nat.add_zero]

theorem active_of {id : Nat} (hactive : (x'.orders id).active) :
    (x.orders id).active := by
  by_cases hinc : id = incomingId
  · obtain ⟨_, -, horder⟩ := h.incoming
    rw [hinc, horder] at hactive
    rw [hinc]
    exact hactive
  by_cases hresting : id = restingId
  · rw [hresting]
    exact h.active
  · rwa [h.others id hinc hresting] at hactive

end Matched

/-! ## The loop -/

/-- An order whose flag says whether something is left of it. -/
def Order.Flagged (o : Order) : Prop := o.active ↔ o.filledSize.val < o.size.val

/-- A fill of the incoming order against one of the entries that were active when the loop
began, at the entry's own price. -/
structure Taken (incomingId restingId : Nat) (incomingPrice oraclePrice : Sint 256) (x : Exchange)
    (f : Fill) : Prop where
  between : f.Between (x.orders incomingId).side incomingId restingId
    (x.orders incomingId).trader (x.orders restingId).trader
  marketId : f.marketId = (x.orders incomingId).marketId
  price : f.price = resolveOffset oraclePrice (x.orders restingId).offsetBps
  oraclePrice : f.oraclePrice = oraclePrice
  active : (x.orders restingId).active
  crosses : Exchange.PricesCross (x.orders incomingId).side incomingPrice f.price

/-- The loop from `x`, with `remaining` of the incoming order, to `y`, with `left` of it, over the
entries `ids`. -/
structure Swept (incomingId : Nat) (ids : List Nat) (incomingPrice oraclePrice : Sint 256)
    (market : MarketState) (x : Exchange) (remaining : Uint 128) (F : List Fill) (y : Exchange)
    (left : Uint 128) : Prop where
  booked : BookedAll market x F y
  taken : ∀ f ∈ F, ∃ id ∈ ids, Taken incomingId id incomingPrice oraclePrice x f
  terms : ∀ id, (y.orders id).terms = (x.orders id).terms
  others : ∀ id, id ≠ incomingId → id ∉ ids → y.orders id = x.orders id
  incoming : ∃ n, y.orders incomingId = { x.orders incomingId with filledSize := n }
  filledSize : ∀ id, (y.orders id).filledSize.val =
    (x.orders id).filledSize.val + traded id F
  active : ∀ id, (y.orders id).active → (x.orders id).active
  bounded : ∀ id, id ≠ incomingId → (x.orders id).filledSize.val ≤ (x.orders id).size.val →
    (y.orders id).filledSize.val ≤ (y.orders id).size.val
  flagged : ∀ id, id ≠ incomingId → (x.orders id).Flagged → (y.orders id).Flagged
  spent : left.val + fillVolume F = remaining.val
  uncrossed : left.val = 0 ∨ ∀ id ∈ ids, (y.orders id).active →
    ¬ Exchange.PricesCross (x.orders incomingId).side incomingPrice
      (resolveOffset oraclePrice (x.orders id).offsetBps)

namespace Swept

variable {incomingId id : Nat} {done : List Nat} {incomingPrice oracle : Sint 256}
  {market : MarketState} {x y y' : Exchange} {remaining r r' : Uint 128} {F : List Fill}
  {f : Fill}

theorem nil (incomingId : Nat) (incomingPrice oracle : Sint 256) (market : MarketState)
    (x : Exchange) (remaining : Uint 128) :
    Swept incomingId [] incomingPrice oracle market x remaining [] x remaining where
  booked := .nil market x
  taken := fun _ hf => absurd hf not_mem_nil
  terms := fun _ => rfl
  others := fun _ _ _ => rfl
  incoming := ⟨(x.orders incomingId).filledSize, rfl⟩
  filledSize := fun _ => rfl
  active := fun _ h => h
  bounded := fun _ _ h => h
  flagged := fun _ _ h => h
  spent := rfl
  uncrossed := .inr fun _ h => absurd h not_mem_nil

variable (h : Swept incomingId done incomingPrice oracle market x remaining F y r)

include h

theorem taken_mono (id : Nat) :
    ∀ g ∈ F, ∃ i ∈ done ++ [id], Taken incomingId i incomingPrice oracle x g := by
  intro g hg
  obtain ⟨i, hi, htaken⟩ := h.taken g hg
  exact ⟨i, mem_append_left _ hi, htaken⟩

/-- The loop passes an entry by. -/
theorem skip (hreason : r.val = 0 ∨ (y.orders id).active = false ∨
      ¬ Exchange.PricesCross (y.orders incomingId).side incomingPrice
        (resolveOffset oracle (y.orders id).offsetBps)) :
    Swept incomingId (done ++ [id]) incomingPrice oracle market x remaining F y r where
  __ := h
  taken := h.taken_mono id
  others := fun i hne hi => h.others i hne fun hdone => hi (mem_append_left _ hdone)
  uncrossed := by
    rw [side_of_terms (h.terms incomingId), offsetBps_of_terms (h.terms id)] at hreason
    rcases h.uncrossed with hzero | hdone
    · exact .inl hzero
    rcases hreason with hzero | hinact | hcross
    · exact .inl hzero
    · refine .inr fun i hi hactive => ?_
      rcases mem_append.mp hi with hi | hi
      · exact hdone i hi hactive
      · rw [mem_singleton.mp hi, hinact] at hactive
        cases hactive
    · refine .inr fun i hi hactive => ?_
      rcases mem_append.mp hi with hi | hi
      · exact hdone i hi hactive
      · rw [mem_singleton.mp hi]
        exact hcross

/-- The loop drops an entry that is full. -/
theorem drop (hne : incomingId ≠ id)
    (hfull : (y.orders id).filledSize.val = (y.orders id).size.val) :
    Swept incomingId (done ++ [id]) incomingPrice oracle market x remaining F
      (y.deactivate id) r where
  booked := h.booked.modifyOrder id _
  taken := h.taken_mono id
  terms := fun i => (y.deactivate_terms id i).trans (h.terms i)
  others := by
    intro i hinc hi
    rw [mem_append, mem_singleton, not_or] at hi
    rw [y.deactivate_of_ne id hi.2]
    exact h.others i hinc hi.1
  incoming := by
    rw [y.deactivate_of_ne id hne]
    exact h.incoming
  filledSize := by
    intro i
    rw [y.deactivate_filledSize id i]
    exact h.filledSize i
  active := fun i hi => h.active i ((y.deactivate_active id i).mp hi).2
  bounded := by
    intro i hinc hle
    rw [y.deactivate_filledSize id i, size_of_terms (y.deactivate_terms id i)]
    exact h.bounded i hinc hle
  flagged := by
    intro i hinc hflagged
    by_cases hi : i = id
    · subst hi
      rw [y.deactivate_self i]
      simp [Order.Flagged, hfull]
    · rw [y.deactivate_of_ne id hi]
      exact h.flagged i hinc hflagged
  spent := h.spent
  uncrossed := by
    rcases h.uncrossed with hzero | hdone
    · exact .inl hzero
    refine .inr fun i hi hactive => ?_
    obtain ⟨hi', hactive'⟩ := (y.deactivate_active id i).mp hactive
    rcases mem_append.mp hi with hi | hi
    · exact hdone i hi hactive'
    · exact absurd (mem_singleton.mp hi) hi'

/-- The loop fills an entry. -/
theorem fill (hne : incomingId ≠ id)
    (hcross : Exchange.PricesCross (y.orders incomingId).side incomingPrice
      (resolveOffset oracle (y.orders id).offsetBps))
    (hf : Matched incomingId id oracle market y r f y' r') :
    Swept incomingId (done ++ [id]) incomingPrice oracle market x remaining (F ++ [f]) y' r' where
  booked := h.booked.snoc hf.booked
  taken := by
    intro g hg
    have hside := side_of_terms (h.terms incomingId)
    have hoffset := offsetBps_of_terms (h.terms id)
    rcases mem_append.mp hg with hg | hg
    · exact h.taken_mono id g hg
    rw [mem_singleton.mp hg]
    refine ⟨id, by simp, ?_, ?_, ?_, hf.oraclePrice, h.active id hf.active, ?_⟩
    · have hbetween := hf.between
      rw [hside, trader_of_terms (h.terms incomingId), trader_of_terms (h.terms id)] at hbetween
      exact hbetween
    · exact hf.marketId.trans (marketId_of_terms (h.terms incomingId))
    · rw [hf.price, hoffset]
    · rw [hf.price, ← hside]
      exact hcross
  terms := fun i => (hf.terms i).trans (h.terms i)
  others := by
    intro i hinc hi
    rw [mem_append, mem_singleton, not_or] at hi
    rw [hf.others i hinc hi.2]
    exact h.others i hinc hi.1
  incoming := by
    obtain ⟨n, hn⟩ := h.incoming
    obtain ⟨n', -, hn'⟩ := hf.incoming
    exact ⟨n', by rw [hn', hn]⟩
  filledSize := by
    intro i
    rw [hf.filledSize i, h.filledSize i, traded_append, Nat.add_assoc]
  active := fun i hi => h.active i (hf.active_of hi)
  bounded := by
    intro i hinc hle
    have hbefore := h.bounded i hinc hle
    by_cases hi : i = id
    · subst hi
      obtain ⟨n, hn, horder⟩ := hf.resting
      have hsize := hf.size
      rw [horder]
      dsimp only
      omega
    · rw [hf.others i hinc hi]
      exact hbefore
  flagged := by
    intro i hinc hflagged
    by_cases hi : i = id
    · subst hi
      obtain ⟨n, -, horder⟩ := hf.resting
      rw [horder]
      exact decide_eq_true_iff
    · rw [hf.others i hinc hi]
      exact h.flagged i hinc hflagged
  spent := by
    have hleft := hf.left
    have hbefore := h.spent
    simp only [fillVolume_append, fillVolume_cons, fillVolume_nil]
    omega
  uncrossed := by
    -- either the incoming order is used up, or the entry is
    have hsize := hf.size
    have hleft := hf.left
    by_cases hzero : r'.val = 0
    · exact .inl hzero
    rcases h.uncrossed with hdone | hdone
    · omega
    refine .inr fun i hi hactive => ?_
    rcases mem_append.mp hi with hi | hi
    · exact hdone i hi (hf.active_of hactive)
    obtain ⟨_, _, horder⟩ := hf.resting
    rw [mem_singleton.mp hi, horder, decide_eq_true_eq] at hactive
    omega

theorem traded_incoming : traded incomingId F = fillVolume F := by
  unfold traded
  rw [filter_eq_self.mpr]
  intro f hf
  obtain ⟨_, -, htaken⟩ := h.taken f hf
  exact decide_eq_true ((htaken.between.touches incomingId).mpr (.inl rfl))

theorem left_eq : r.val + (y.orders incomingId).filledSize.val =
      remaining.val + (x.orders incomingId).filledSize.val := by
  have hspent := h.spent
  rw [h.filledSize, h.traded_incoming]
  omega

end Swept

theorem Exchange.walk_swept {ids : List Nat} {incomingPrice oracle : Sint 256}
    {market : MarketState} {x y : Exchange} {remaining left : Uint 128}
    (h : ids.foldlM (Exchange.visit incomingId incomingPrice oracle market) (x, remaining) =
      .ok (y, left))
    (hnew : incomingId ∉ ids) :
    ∃ F, Swept incomingId ids incomingPrice oracle market x remaining F y left := by
  have hne : ∀ {done id rest}, ids = done ++ id :: rest → incomingId ≠ id := by
    rintro done id rest hids rfl
    exact hnew (by rw [hids]; simp)
  refine Exchange.walk_invariant (I := fun done y r => ∃ F,
    Swept incomingId done incomingPrice oracle market x remaining F y r) h hnew
    ⟨[], .nil incomingId incomingPrice oracle market x remaining⟩ ?_ ?_ ?_
  · rintro done id rest z r - ⟨F, hF⟩ hreason
    exact ⟨F, hF.skip hreason⟩
  · rintro done id rest z r hids ⟨F, hF⟩ - hfull
    exact ⟨F, hF.drop (hne hids) hfull⟩
  · rintro _ _ _ _ _ f _ _ hids ⟨F, hF⟩ - hcross hmatched
    exact ⟨F ++ [f], hF.fill (hne hids) hcross hmatched⟩

end HyperPax.PaxSpot
