/-
  PaxSpot/Quality.lean --- the rolling fill-quality score of a trader.

  Every fill updates the scores of its two traders: the stored score is averaged with the
  score of the fill, the stored weight decayed by one per cent against the fill's size.  The
  average never leaves the range of the scores that went into it (`scores_in_range`), whatever
  the weights are: each stored score is a floored convex combination.

  The weight that is handed back for the next update is the denominator of that average,
  which still carries the factor 10000 of the basis points.  It is the decayed volume for
  traders without volume only (`decayedAverage_iff_no_volume`).
-/
import HyperPax.PaxSpot.Exchange

set_option autoImplicit false

namespace HyperPax.PaxSpot

open Lib List

/-! ## The score of one fill -/

theorem computeFillScore_mem (fillPrice oracle : Int) : 0 ≤ computeFillScore fillPrice oracle ∧
      computeFillScore fillPrice oracle ≤ 10 ^ 18 := by
  have hdeviation : 0 ≤ |fillPrice - oracle| * 10 ^ 18 / |oracle| :=
    Int.ediv_nonneg (mul_nonneg (abs_nonneg _) (by decide)) (abs_nonneg _)
  unfold computeFillScore
  split
  · exact ⟨le_refl 0, by decide⟩
  dsimp only
  split
  · exact ⟨le_refl 0, by decide⟩
  · omega

theorem scoreFill_val (fillPrice oracle : Sint 256) : ((scoreFill fillPrice oracle).val : Int) =
      computeFillScore fillPrice.val oracle.val := by
  obtain ⟨hnonneg, _⟩ := computeFillScore_mem fillPrice.val oracle.val
  have hlt : (computeFillScore fillPrice.val oracle.val).toNat < 2 ^ 256 := by
    have hbound : (computeFillScore fillPrice.val oracle.val).toNat ≤ 10 ^ 18 := by omega
    exact lt_of_le_of_lt hbound (by norm_num)
  rw [scoreFill, Uint.truncate_of_lt hlt, Int.toNat_of_nonneg hnonneg]

/-! ## Averages -/

variable {lo hi : Nat}

theorem average_mem {a b u v : Nat} (hpos : 0 < u + v) (ha : u = 0 ∨ lo ≤ a ∧ a ≤ hi)
    (hb : v = 0 ∨ lo ≤ b ∧ b ≤ hi) :
    lo ≤ (a * u + b * v) / (u + v) ∧ (a * u + b * v) / (u + v) ≤ hi := by
  have hscaled : ∀ c w : Nat, (w = 0 ∨ lo ≤ c ∧ c ≤ hi) → lo * w ≤ c * w ∧ c * w ≤ hi * w := by
    intro _ _ h
    cases h with
    | inl hw => simp [hw]
    | inr h => exact ⟨Nat.mul_le_mul_right _ h.1, Nat.mul_le_mul_right _ h.2⟩
  have hleft := hscaled a u ha
  have hright := hscaled b v hb
  constructor
  · rw [Nat.le_div_iff_mul_le hpos, Nat.mul_add]
    omega
  refine Nat.div_le_of_le_mul ?_
  rw [Nat.add_mul, Nat.mul_comm u hi, Nat.mul_comm v hi]
  omega

/-! ## One update -/

/-- A fill as `_updatePoFQ` sees it. -/
structure ScoredFill where
  trader : Address
  fillPrice : Sint 256
  oraclePrice : Sint 256
  size : Uint 128

namespace ScoredFill

/-- The score of the fill. -/
def score (f : ScoredFill) : Uint 256 := scoreFill f.fillPrice f.oraclePrice

/-- A trader's stored score and weight after one more fill. -/
def blend (stored : Uint 256 × Uint 256) (f : ScoredFill) : Uint 256 × Uint 256 :=
  updateRollingScore stored.1 stored.2 f.score f.size.val 100

end ScoredFill

variable {stored : Uint 256 × Uint 256} {f : ScoredFill} {fills : List ScoredFill}
  {trader : Address}

theorem blend_eq (hpos : 0 < stored.2.val * 9900 + f.size.val * 10000) : ScoredFill.blend stored f =
      (Uint.truncate ((stored.1.val * (stored.2.val * 9900) + f.score.val * (f.size.val * 10000)) /
          (stored.2.val * 9900 + f.size.val * 10000)),
        Uint.truncate (stored.2.val * 9900 + f.size.val * 10000)) := by
  have hne : stored.2.val * (10000 - 100) + f.size.val * 10000 ≠ 0 := hpos.ne'
  rw [ScoredFill.blend, updateRollingScore, if_neg hne, Nat.mul_assoc, Nat.mul_assoc]

theorem blend_fst (hpos : 0 < stored.2.val * 9900 + f.size.val * 10000) :
    (ScoredFill.blend stored f).1.val =
      (stored.1.val * (stored.2.val * 9900) + f.score.val * (f.size.val * 10000)) /
        (stored.2.val * 9900 + f.size.val * 10000) := by
  have hmax := average_mem hpos (.inr ⟨Nat.zero_le _, le_max_left stored.1.val f.score.val⟩)
    (.inr ⟨Nat.zero_le _, le_max_right stored.1.val f.score.val⟩)
  rw [blend_eq hpos]
  exact Uint.truncate_of_lt
    (lt_of_le_of_lt hmax.2 (max_lt stored.1.lt_two_pow f.score.lt_two_pow))

theorem blend_mem (hsize : 0 < f.size.val)
    (hstored : stored.2.val = 0 ∨ lo ≤ stored.1.val ∧ stored.1.val ≤ hi)
    (hf : lo ≤ f.score.val ∧ f.score.val ≤ hi) :
    lo ≤ (ScoredFill.blend stored f).1.val ∧ (ScoredFill.blend stored f).1.val ≤ hi := by
  have hpos : 0 < stored.2.val * 9900 + f.size.val * 10000 := by omega
  rw [blend_fst hpos]
  refine average_mem hpos ?_ (.inr hf)
  cases hstored with
  | inl h => exact .inl (by rw [h, Nat.zero_mul])
  | inr h => exact .inr h

/-! ## Runs of updates -/

namespace Exchange

/-- The fills of a run, each through `_updatePoFQ`. -/
def scoreFills (x : Exchange) (fills : List ScoredFill) : Exchange :=
  fills.foldl (fun x f => x.updatePoFQ f.trader f.fillPrice f.oraclePrice f.size) x

/-- What is stored for a trader: score and weight. -/
def rolling (x : Exchange) (trader : Address) : Uint 256 × Uint 256 :=
  (x.poFQScores trader, x.poFQWeights trader)

end Exchange

/-- The fills of one trader. -/
def fillsOf (trader : Address) (fills : List ScoredFill) : List ScoredFill :=
  fills.filter fun f => f.trader = trader

theorem rolling_scoreFills (x : Exchange) (trader : Address) (fills : List ScoredFill) :
    (x.scoreFills fills).rolling trader =
      (fillsOf trader fills).foldl ScoredFill.blend (x.rolling trader) := by
  induction fills generalizing x with
  | nil => rfl
  | cons f _ ih =>
    have hstep := ih (x.updatePoFQ f.trader f.fillPrice f.oraclePrice f.size)
    rw [Exchange.scoreFills, foldl_cons]
    refine hstep.trans ?_
    by_cases hf : f.trader = trader
    · subst hf
      rw [fillsOf, fillsOf, filter_cons_of_pos (by simp), foldl_cons]
      congr 1
      simp [Exchange.rolling, Exchange.updatePoFQ, ScoredFill.blend, ScoredFill.score]
    · rw [fillsOf, fillsOf, filter_cons_of_neg (by simpa using hf)]
      congr 1
      simp [Exchange.rolling, Exchange.updatePoFQ, Function.update_of_ne (Ne.symm hf)]

theorem foldl_blend_mem (hne : fills ≠ []) (hsize : ∀ f ∈ fills, 0 < f.size.val)
    (hf : ∀ f ∈ fills, lo ≤ f.score.val ∧ f.score.val ≤ hi)
    (hstored : stored.2.val = 0 ∨ lo ≤ stored.1.val ∧ stored.1.val ≤ hi) :
    lo ≤ (fills.foldl ScoredFill.blend stored).1.val ∧
      (fills.foldl ScoredFill.blend stored).1.val ≤ hi := by
  induction fills generalizing stored with
  | nil => exact absurd rfl hne
  | cons f fills ih =>
    have hnext := blend_mem (hsize f mem_cons_self) hstored (hf f mem_cons_self)
    by_cases hrest : fills = []
    · subst hrest
      exact hnext
    · exact ih hrest (fun g hg => hsize g (mem_cons_of_mem _ hg))
        (fun g hg => hf g (mem_cons_of_mem _ hg)) (.inr hnext)

/-! ## Scores stay in range -/

theorem exists_extremes {A B : Type} [LinearOrder B] (value : A → B) {l : List A} (hne : l ≠ []) :
    ∃ a ∈ l, ∃ b ∈ l, ∀ c ∈ l, value a ≤ value c ∧ value c ≤ value b := by
  have hnonempty : {c | c ∈ l}.Nonempty := exists_mem_of_ne_nil l hne
  obtain ⟨a, ha, hmin⟩ := Set.exists_min_image {c | c ∈ l} value l.finite_toSet hnonempty
  obtain ⟨b, hb, hmax⟩ := Set.exists_max_image {c | c ∈ l} value l.finite_toSet hnonempty
  exact ⟨a, ha, b, hb, fun c hc => ⟨hmin c hc, hmax c hc⟩⟩

theorem weightedSum_mem {lo hi : Int} (scores : List Int) (sizes : List (Uint 256))
    (hlen : scores.length = sizes.length) (h : ∀ s ∈ scores, lo ≤ s ∧ s ≤ hi) :
    lo * (sizes.map fun n => (n.val : Int)).sum ≤
        (List.zipWith (fun s n => s * (n.val : Int)) scores sizes).sum ∧
      (List.zipWith (fun s n => s * (n.val : Int)) scores sizes).sum ≤
        hi * (sizes.map fun n => (n.val : Int)).sum := by
  induction scores generalizing sizes with
  | nil =>
    cases sizes with
    | nil => simp
    | cons => cases hlen
  | cons s _ ih =>
    cases sizes with
    | nil => cases hlen
    | cons n sizes =>
      obtain ⟨hlo, hhi⟩ := h s mem_cons_self
      obtain ⟨ihlo, ihhi⟩ := ih sizes (Nat.succ.inj hlen) fun s hs => h s (mem_cons_of_mem _ hs)
      have hn : (0 : Int) ≤ n.val := Int.natCast_nonneg _
      simp only [map_cons, sum_cons, zipWith_cons_cons, mul_add]
      exact ⟨add_le_add (mul_le_mul_of_nonneg_right hlo hn) ihlo,
        add_le_add (mul_le_mul_of_nonneg_right hhi hn) ihhi⟩

theorem scoreBatch_mem {fillPrices oraclePrices : List (Sint 256)} {sizes : List (Uint 256)}
    (horacle : fillPrices.length = oraclePrices.length) (hlen : fillPrices.length = sizes.length)
    (hne : fillPrices ≠ []) (hsize : ∀ n ∈ sizes, 0 < n.val) :
    ∃ avgScore totalVolume, scoreBatch fillPrices oraclePrices sizes = .ok (avgScore, totalVolume) ∧
      ∃ lo ∈ List.zipWith (fun f o => computeFillScore f.val o.val) fillPrices oraclePrices,
      ∃ hi ∈ List.zipWith (fun f o => computeFillScore f.val o.val) fillPrices oraclePrices,
        lo ≤ avgScore.val ∧ (avgScore.val : Int) ≤ hi := by
  set scores := List.zipWith (fun f o => computeFillScore f.val o.val) fillPrices oraclePrices
    with hscores
  have hlength : scores.length = sizes.length := by
    rw [hscores, length_zipWith, ← horacle, ← hlen, Nat.min_self]
  have hscoresNe : scores ≠ [] := by
    rw [← length_pos_iff, hlength, ← hlen, length_pos_iff]
    exact hne
  have htotal : 0 < (sizes.map fun n => (n.val : Int)).sum := by
    refine sum_pos _ ?_ ?_
    · intro _ hz
      obtain ⟨n, hn, rfl⟩ := mem_map.mp hz
      exact Int.natCast_pos.mpr (hsize n hn)
    · rw [← length_pos_iff, length_map, ← hlen, length_pos_iff]
      exact hne
  have hrange : ∀ s ∈ scores, 0 ≤ s ∧ s ≤ 10 ^ 18 := by
    intro s hs
    rw [hscores, ← map_uncurry_zip_eq_zipWith, mem_map] at hs
    obtain ⟨_, -, rfl⟩ := hs
    exact computeFillScore_mem _ _
  obtain ⟨lo, hlo, hi, hhi, hbounds⟩ := exists_extremes id hscoresNe
  obtain ⟨hsumlo, hsumhi⟩ := weightedSum_mem scores sizes hlength hbounds
  set average := (List.zipWith (fun s n => s * (n.val : Int)) scores sizes).sum /
    (sizes.map fun n => (n.val : Int)).sum with haverage
  have hle : average ≤ hi := Int.ediv_le_of_le_mul htotal hsumhi
  have hge : lo ≤ average := (Int.le_ediv_iff_mul_le htotal).mpr hsumlo
  have hfits : average.toNat < 2 ^ 256 := by
    have hcap := (hrange hi hhi).2
    exact lt_of_le_of_lt (show average.toNat ≤ 10 ^ 18 by omega) (by norm_num)
  refine ⟨.truncate average.toNat, .truncate (sizes.map fun n => (n.val : Int)).sum.toNat, ?_, lo,
    hlo, hi, hhi, ?_⟩
  · rw [scoreBatch, if_neg (by omega), if_neg hne]
    rw [← hscores, if_neg htotal.ne', ← haverage]
  have hnonneg := (hrange lo hlo).1
  rw [Uint.truncate_of_lt hfits, Int.toNat_of_nonneg (by omega)]
  exact ⟨hge, hle⟩

theorem rolling_start (self owner : Address) (custody : VaultRun) (trader : Address)
    (fills : List ScoredFill) :
    ((Exchange.start self owner custody).scoreFills fills).rolling trader =
      (fillsOf trader fills).foldl ScoredFill.blend (Uint.zero, Uint.zero) :=
  rolling_scoreFills _ trader fills

/-- A fill's score is in `[0, 1e18]`; the stored score of a trader lies between the scores of
two of the trader's fills, after any number of fills of positive size; and the average of a
batch lies between the scores of two of its entries. -/
theorem scores_in_range :
    (∀ fillPrice oraclePrice : Sint 256, 0 ≤ computeFillScore fillPrice.val oraclePrice.val ∧
      computeFillScore fillPrice.val oraclePrice.val ≤ 10 ^ 18) ∧
    (∀ (self owner : Address) (custody : VaultRun) (trader : Address) (fills : List ScoredFill),
      (∀ f ∈ fills, 0 < f.size.val) → fillsOf trader fills ≠ [] →
      ∃ f ∈ fillsOf trader fills, ∃ g ∈ fillsOf trader fills,
        computeFillScore f.fillPrice.val f.oraclePrice.val ≤
          (((Exchange.start self owner custody).scoreFills fills).poFQScores trader).val ∧
        ((((Exchange.start self owner custody).scoreFills fills).poFQScores trader).val : Int) ≤
          computeFillScore g.fillPrice.val g.oraclePrice.val) ∧
    (∀ (fillPrices oraclePrices : List (Sint 256)) (sizes : List (Uint 256)),
      fillPrices.length = oraclePrices.length → fillPrices.length = sizes.length →
      fillPrices ≠ [] → (∀ n ∈ sizes, 0 < n.val) →
      ∃ avgScore totalVolume, scoreBatch fillPrices oraclePrices sizes =
          .ok (avgScore, totalVolume) ∧
        ∃ lo ∈ List.zipWith (fun f o => computeFillScore f.val o.val) fillPrices oraclePrices,
        ∃ hi ∈ List.zipWith (fun f o => computeFillScore f.val o.val) fillPrices oraclePrices,
          lo ≤ avgScore.val ∧ (avgScore.val : Int) ≤ hi) := by
  refine ⟨fun f o => computeFillScore_mem _ _, ?_, ?_⟩
  · intro self owner custody _ _ hsize hne
    obtain ⟨f, hf, g, hg, hbounds⟩ := exists_extremes (fun f => f.score.val) hne
    have hmem := foldl_blend_mem hne (fun h hh => hsize h (mem_filter.mp hh).1) hbounds
      (.inl (show (.zero, (.zero : Uint 256)).2.val = 0 from rfl))
    rw [← rolling_start self owner custody] at hmem
    refine ⟨f, hf, g, hg, ?_⟩
    rw [← scoreFill_val, ← scoreFill_val]
    exact ⟨Int.ofNat_le.mpr hmem.1, Int.ofNat_le.mpr hmem.2⟩
  · intro _ _ _ horacle hlen hne hsize
    exact scoreBatch_mem horacle hlen hne hsize

/-- Two fills of one trader, one per cent off the oracle's price and at it. -/
def twoFills : List ScoredFill :=
  [⟨.zero, .wrap 99, .wrap 100, .truncate 1⟩, ⟨.zero, .wrap 100, .wrap 100, .truncate 2⟩]

/-- The stored score after the two fills, and the average of a batch of the same. -/
theorem scores_in_range_two_fills : (∃ f ∈ fillsOf .zero twoFills, ∃ g ∈ fillsOf .zero twoFills,
      computeFillScore f.fillPrice.val f.oraclePrice.val ≤
        (((Exchange.start .zero .zero (.start (.fresh .zero .zero 0 5 .zero) fun _ _ =>
          0)).scoreFills twoFills).poFQScores .zero).val ∧
      ((((Exchange.start .zero .zero (.start (.fresh .zero .zero 0 5 .zero) fun _ _ =>
          0)).scoreFills twoFills).poFQScores .zero).val : Int) ≤
        computeFillScore g.fillPrice.val g.oraclePrice.val) ∧
    ∃ avgScore totalVolume, scoreBatch [.wrap 99, .wrap 100] [.wrap 100, .wrap 100]
        [.truncate 1, .truncate 2] = .ok (avgScore, totalVolume) ∧
      ∃ lo ∈ [computeFillScore 99 100, computeFillScore 100 100],
      ∃ hi ∈ [computeFillScore 99 100, computeFillScore 100 100],
        lo ≤ avgScore.val ∧ (avgScore.val : Int) ≤ hi :=
  ⟨scores_in_range.2.1 _ _ _ _ _ (by decide) (by decide),
    scores_in_range.2.2 _ _ _ rfl rfl (by decide) (by decide)⟩

/-! ## The weight is not the decayed volume -/

/-- `sum_i size_i * (1 - d/10000)^(n-i)` for `d = 100` and sizes numbered from one. -/
def decayedVolume (sizes : List Nat) : ℚ :=
  ∑ i : Fin sizes.length, (sizes.get i : ℚ) * (1 - 100 / 10000) ^ (sizes.length - (i + 1))

/-- The sizes of a trader's fills. -/
def sizesOf (trader : Address) (fills : List ScoredFill) : List Nat :=
  (fillsOf trader fills).map fun f => f.size.val

/-- The rolling score of a trader as a decayed average of volumes, over the fills of a run:
after every update the weight is the decayed volume, up to one unit of rounding for each
update, and at most the volume traded; and each update weighs the fill by its size against
the stored weight decayed by one per cent. -/
structure DecayedAverage (x : Exchange) (trader : Address) (fills : List ScoredFill) : Prop where
  accumulated : ∀ done, done <+: fills →
    |(((x.scoreFills done).poFQWeights trader).val : ℚ) - decayedVolume (sizesOf trader done)| ≤
      (sizesOf trader done).length
  bounded : ∀ done, done <+: fills →
    ((x.scoreFills done).poFQWeights trader).val ≤ (sizesOf trader done).sum
  blended : ∀ done f, done ++ [f] <+: fills → f.trader = trader →
    ∀ weight : ℚ, weight = ((x.scoreFills done).poFQWeights trader).val * (1 - 100 / 10000) →
    weight + f.size.val ≠ 0 →
    ((x.scoreFills (done ++ [f])).poFQScores trader).val =
      ⌊(((x.scoreFills done).poFQScores trader).val * weight + f.score.val * f.size.val) /
        (weight + f.size.val)⌋₊

theorem foldl_blend_zero (h : ∀ f ∈ fills, f.size.val = 0) :
    fills.foldl ScoredFill.blend (Uint.zero, Uint.zero) = (Uint.zero, Uint.zero) := by
  induction fills with
  | nil => rfl
  | cons f _ ih =>
    have hfirst : ScoredFill.blend (Uint.zero, Uint.zero) f = (Uint.zero, Uint.zero) := by
      simp [ScoredFill.blend, updateRollingScore, h f mem_cons_self]
    rw [foldl_cons, hfirst]
    exact ih fun g hg => h g (mem_cons_of_mem _ hg)

theorem decayedVolume_zero {sizes : List Nat} (h : ∀ n ∈ sizes, n = 0) :
    decayedVolume sizes = 0 := by
  refine Finset.sum_eq_zero ?_
  intro i _
  rw [h _ (get_mem sizes i), Nat.cast_zero, zero_mul]

theorem fillsOf_append_of_eq (done : List ScoredFill) (hf : f.trader = trader) :
    fillsOf trader (done ++ [f]) = fillsOf trader done ++ [f] := by
  simp [fillsOf, filter_append, hf]

theorem blend_score (stored : Uint 256 × Uint 256) (f : ScoredFill) {weight : ℚ}
    (hweight : weight = stored.2.val * (1 - 100 / 10000)) (hne : weight + f.size.val ≠ 0) :
    (ScoredFill.blend stored f).1.val =
      ⌊(stored.1.val * weight + f.score.val * f.size.val) / (weight + f.size.val)⌋₊ := by
  have hpos : 0 < stored.2.val * 9900 + f.size.val * 10000 := by
    rw [Nat.pos_iff_ne_zero]
    intro _
    have hparts : stored.2.val = 0 ∧ f.size.val = 0 := by omega
    rw [hweight, hparts.1, hparts.2] at hne
    exact hne (by norm_num)
  have hdenominator : weight + f.size.val =
      ((stored.2.val * 9900 + f.size.val * 10000 : Nat) : ℚ) / 10000 := by
    rw [hweight]
    push_cast
    ring
  have hnumerator : stored.1.val * weight + f.score.val * f.size.val =
      ((stored.1.val * (stored.2.val * 9900) + f.score.val * (f.size.val * 10000) : Nat) : ℚ) /
        10000 := by
    rw [hweight]
    push_cast
    ring
  rw [blend_fst hpos, hnumerator, hdenominator, div_div_div_cancel_right₀ (by norm_num),
    Nat.floor_div_eq_div]

theorem blend_zero_snd (f : ScoredFill) :
    (ScoredFill.blend (Uint.zero, Uint.zero) f).2.val = f.size.val * 10000 := by
  have hlt : f.size.val < 2 ^ 128 := f.size.lt_two_pow
  have hfits : f.size.val * 10000 < 2 ^ 256 :=
    lt_of_lt_of_le (Nat.mul_lt_mul_of_pos_right hlt (by decide)) (by norm_num)
  by_cases hsize : f.size.val = 0
  · simp [ScoredFill.blend, updateRollingScore, hsize]
  · simp [ScoredFill.blend, updateRollingScore, hsize, Uint.truncate_of_lt hfits]

theorem no_volume_of_bounded (self owner : Address) (custody : VaultRun)
    (h : ∀ done, done <+: fills →
      (((Exchange.start self owner custody).scoreFills done).poFQWeights trader).val ≤
        (sizesOf trader done).sum) : ∀ f ∈ fillsOf trader fills, f.size.val = 0 := by
  induction fills using List.reverseRecOn with
  | nil =>
    intro f hf
    cases hf
  | append_singleton done g ih =>
    have ih := ih fun d hd => h d (hd.trans (prefix_append done [g]))
    by_cases hg : g.trader = trader
    · have hweight := congrArg (fun p => p.2.val)
        (rolling_start self owner custody trader (done ++ [g]))
      have hsum : (sizesOf trader (done ++ [g])).sum = g.size.val := by
        have hzero : ((fillsOf trader done).map fun f => f.size.val).sum = 0 :=
          sum_eq_zero (by simpa using ih)
        rw [sizesOf, fillsOf_append_of_eq done hg, map_append, sum_append, hzero]
        simp
      rw [fillsOf_append_of_eq done hg, foldl_append, foldl_blend_zero ih] at hweight
      have hbounded := h (done ++ [g]) (prefix_refl _)
      rw [hsum] at hbounded
      have hlarge := (blend_zero_snd g).symm.trans_le (hweight.symm.trans_le hbounded)
      rw [fillsOf_append_of_eq done hg]
      intro f hf
      rw [mem_append, mem_singleton] at hf
      obtain hf | rfl := hf
      · exact ih f hf
      · omega
    · intro f hf
      refine ih f ?_
      simpa [fillsOf, filter_append, hg] using hf

/-- The stored weight is the decayed volume of a trader exactly when none of the trader's fills
has a size. -/
theorem decayedAverage_iff_no_volume (self owner : Address) (custody : VaultRun) (trader : Address)
    (fills : List ScoredFill) : DecayedAverage (Exchange.start self owner custody) trader fills ↔
      ∀ f ∈ fillsOf trader fills, f.size.val = 0 := by
  have hstored := rolling_start self owner custody trader
  constructor
  · intro h
    exact no_volume_of_bounded self owner custody h.bounded
  intro hzero
  have hdone : ∀ done, done <+: fills → ∀ f ∈ fillsOf trader done, f.size.val = 0 := by
    intro done hdone f hf
    exact hzero f ((hdone.sublist.filter _).subset hf)
  have hweight : ∀ done, done <+: fills →
      ((Exchange.start self owner custody).scoreFills done).poFQWeights trader = Uint.zero := by
    intro done hlead
    have hpair := hstored done
    rw [foldl_blend_zero (hdone done hlead)] at hpair
    exact congrArg Prod.snd hpair
  refine ⟨?_, ?_, ?_⟩
  · intro done hlead
    have hsizes : ∀ n ∈ sizesOf trader done, n = 0 := by
      intro _ hn
      obtain ⟨f, hf, rfl⟩ := mem_map.mp hn
      exact hdone done hlead f hf
    rw [hweight done hlead, decayedVolume_zero hsizes]
    simp
  · intro done hlead
    rw [hweight done hlead]
    exact Nat.zero_le _
  · intro done f _ hf _ hw hne
    have hbefore := hstored done
    have hafter := hstored (done ++ [f])
    rw [fillsOf_append_of_eq done hf, foldl_append, ← hbefore] at hafter
    have hscore := blend_score (((Exchange.start self owner custody).scoreFills done).rolling
      trader) f hw hne
    exact (congrArg (fun p => p.1.val) hafter).trans hscore

/-- After one fill of size one the stored weight is ten thousand. -/
theorem weight_of_one_fill :
    ((Exchange.start .zero .zero (.start (.fresh .zero .zero 0 5 .zero) fun _ _ => 0)).scoreFills
        [⟨.zero, .wrap 100, .wrap 100, .truncate 1⟩]).poFQWeights .zero = .truncate 10000 ∧
      ¬ DecayedAverage (Exchange.start .zero .zero (.start (.fresh .zero .zero 0 5 .zero) fun _ _ =>
        0)) .zero [⟨.zero, .wrap 100, .wrap 100, .truncate 1⟩] := by
  refine ⟨by decide +kernel, ?_⟩
  intro h
  have hbounded := h.bounded _ (prefix_refl _)
  exact absurd hbounded (by decide +kernel)

end HyperPax.PaxSpot
