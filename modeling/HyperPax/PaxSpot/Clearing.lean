/-
  PaxSpot/Clearing.lean --- prices to offsets and back, and what a clearing maximises.

  `toOffset` rounds down to whole basis points, so the price lies between two neighbouring
  offsets; but the quotient is cut to 16 bits without a check.

  `computeClearing` looks at the offsets that were submitted only.  An offset between two of
  them matches no more than the next submitted buy above it: demand is the same there, and
  supply is no smaller.
-/
import HyperPax.PaxSpot.Pricing

set_option autoImplicit false

namespace HyperPax.PaxSpot

open Lib List

/-! ## Offsets -/

/-- The quotient `toOffset` computes. -/
def offsetQuotient (oraclePrice absolutePrice : Int) : Int :=
  (absolutePrice - oraclePrice) * 10000 / oraclePrice

/-- `toOffset`: `int16(diff.Int64())` keeps the low bits of the quotient. -/
def toOffset (oraclePrice absolutePrice : Sint 256) : Except String (Sint 16) :=
  if oraclePrice.val = 0 then .error "oraclePrice cannot be zero"
  else
    let diff : Sint 64 := .wrap (offsetQuotient oraclePrice.val absolutePrice.val)
    .ok (.wrap diff.val)

/-- The price at an offset that need not be an `int16`. -/
def priceAt (oraclePrice offset : Int) : Int := oraclePrice * (10000 + offset) / 10000

theorem resolveOffset_zero (oracle : Sint 256) : (resolveOffset oracle .zero).val = oracle.val := by
  have hsame : computeAbsolutePrice oracle.val .zero = oracle.val := by
    rw [computeAbsolutePrice, Sint.val_zero, add_zero]
    exact Int.mul_ediv_cancel _ (by decide)
  rw [resolveOffset_val (by rw [hsame]; exact oracle.fits), hsame]

theorem toOffset_val {o p : Sint 256} {x : Sint 16} (h : toOffset o p = .ok x) :
    ∃ k, x.val = offsetQuotient o.val p.val + 65536 * k := by
  unfold toOffset at h
  split at h
  · cases h
  cases h
  have hwrap : ((offsetQuotient o.val p.val).bmod (2 ^ 64)).bmod 65536 =
      (offsetQuotient o.val p.val).bmod 65536 :=
    Int.bmod_bmod_of_dvd (by norm_num)
  have hdiv := Int.bmod_add_bdiv (offsetQuotient o.val p.val) 65536
  refine ⟨-((offsetQuotient o.val p.val).bdiv 65536), hwrap.trans ?_⟩
  push_cast at hdiv
  linarith

theorem offsetQuotient_bounds {o : Int} (ho : 0 < o) (p : Int) :
    o * (10000 + offsetQuotient o p) ≤ p * 10000 ∧
      p * 10000 < o * (10000 + offsetQuotient o p) + o := by
  have hle := Int.ediv_mul_le ((p - o) * 10000) ho.ne'
  have hlt := Int.lt_ediv_add_one_mul_self ((p - o) * 10000) ho
  unfold offsetQuotient
  constructor <;> linarith

/-- The offset brackets the price exactly if it was not cut: an offset that lost `65536` steps
is too far off for any oracle price. -/
theorem toOffset_brackets_iff (o p : Sint 256) (x : Sint 16) (ho : 0 < o.val)
    (h : toOffset o p = .ok x) : (priceAt o.val x.val ≤ p.val ∧ p.val ≤ priceAt o.val (x.val + 1)) ↔
      Sint.Fits 16 (offsetQuotient o.val p.val) := by
  obtain ⟨k, hk⟩ := toOffset_val h
  obtain ⟨hlow, hhigh⟩ := offsetQuotient_bounds ho p.val
  have hfits := x.fits
  unfold Sint.Fits at hfits ⊢
  unfold priceAt
  rw [hk] at hfits ⊢
  generalize offsetQuotient o.val p.val = q at hlow hhigh hfits ⊢
  constructor
  · rintro ⟨_, _⟩
    have hsplit : o.val * (10000 + (q + 65536 * k)) =
        o.val * (10000 + q) + 65536 * (o.val * k) := by ring
    have hsplit' : o.val * (10000 + (q + 65536 * k + 1)) =
        o.val * (10000 + q) + 65536 * (o.val * k) + o.val := by ring
    have hzero : k = 0 := by
      rcases lt_trichotomy k 0 with _ | hzero | _
      · have hprod : o.val * k ≤ -o.val := by nlinarith
        omega
      · exact hzero
      · have hprod : o.val ≤ o.val * k := by nlinarith
        omega
    omega
  · intro _
    have hzero : k = 0 := by omega
    subst hzero
    refine ⟨Int.lt_add_one_iff.mp ((Int.ediv_lt_iff_lt_mul (by norm_num)).mpr ?_),
      (Int.le_ediv_iff_mul_le (by norm_num)).mpr ?_⟩
    · linarith
    · linarith

/-- A price of five times the oracle price is forty thousand steps above it; the caller is told
`-25536`, which is a negative price. -/
theorem toOffset_of_five_times :
    ∃ (o p : Sint 256) (x : Sint 16), 0 < o.val ∧ toOffset o p = .ok x ∧
      ¬ (priceAt o.val x.val ≤ p.val ∧ p.val ≤ priceAt o.val (x.val + 1)) := by
  refine ⟨.wrap 100, .wrap 500, .wrap (-25536), by decide, by decide, ?_⟩
  decide

theorem toOffset_of_one_percent_up : toOffset (.wrap 100) (.wrap 101) = .ok (.wrap 100) ∧
      ((priceAt 100 100 ≤ 101 ∧ (101 : Int) ≤ priceAt 100 (100 + 1)) ↔
        Sint.Fits 16 (offsetQuotient 100 101)) :=
  ⟨by decide, toOffset_brackets_iff (.wrap 100) (.wrap 101) (.wrap 100) (by decide)
    (by decide)⟩

/-! ## Clearing -/

variable {buys sells l : List Entry}

/-- The volume an offset matches. -/
def volumeAt (buys sells : List Entry) (x : Sint 16) : Nat :=
  min (cumDemand buys x) (cumSupply sells x)

theorem volume_filter_mono (entries : List Entry) {p q : Entry → Bool}
    (h : ∀ e ∈ entries, p e → q e) : volume (entries.filter p) ≤ volume (entries.filter q) := by
  have hsub : (entries.filter p).Sublist (entries.filter q) := by
    have hboth : entries.filter p = (entries.filter q).filter p := by
      rw [filter_filter]
      refine filter_congr fun e he => ?_
      cases hp : p e
      · rfl
      · rw [h e he hp]
        rfl
    rw [hboth]
    exact filter_sublist
  exact List.Sublist.sum_le_sum (hsub.map _) fun _ _ => Nat.zero_le _

theorem volumeAt_eq_zero {x : Sint 16}
    (h : (∀ b ∈ buys, b.offsetBps.val < x.val) ∨ ∀ s ∈ sells, x.val < s.offsetBps.val) :
    volumeAt buys sells x = 0 := by
  rcases h with h | h
  · rw [volumeAt, cumDemand, filter_eq_nil_iff.mpr fun b hb => by simpa using h b hb]
    exact Nat.zero_min _
  · rw [volumeAt, cumSupply, filter_eq_nil_iff.mpr fun s hs => by simpa using h s hs]
    exact Nat.min_zero _

theorem volumeAt_le_submitted (buys sells : List Entry) (x : Sint 16) : volumeAt buys sells x = 0 ∨
      ∃ b ∈ buys, volumeAt buys sells x ≤ volumeAt buys sells b.offsetBps := by
  by_cases hnone : ∀ b ∈ buys, b.offsetBps.val < x.val
  · exact .inl (volumeAt_eq_zero (.inl hnone))
  push Not at hnone
  obtain ⟨b₀, hb₀, hx₀⟩ := hnone
  -- the next submitted buy at or above the offset
  obtain ⟨b, hb, hleast⟩ := (buys.filter fun b => x.val ≤ b.offsetBps.val).toFinset.exists_min_image
    (fun b => b.offsetBps.val) ⟨b₀, by simp [hb₀, hx₀]⟩
  simp only [mem_toFinset, mem_filter, decide_eq_true_eq] at hb hleast
  refine .inr ⟨b, hb.1, min_le_min ?_ ?_⟩
  · refine volume_filter_mono buys fun e he hxe => ?_
    simp only [decide_eq_true_eq] at hxe ⊢
    exact hleast e ⟨he, hxe⟩
  · refine volume_filter_mono sells fun e _ hxe => ?_
    simp only [decide_eq_true_eq] at hxe ⊢
    exact hxe.trans hb.2

theorem scanLevels_best {ls : List (Sint 16)} (hsorted : ls.Pairwise fun a b => a.val < b.val)
    {best r : Sint 16 × Nat} (h : scanLevels buys sells ls best = r) :
    best.2 ≤ r.2 ∧ (∀ l ∈ ls, volumeAt buys sells l ≤ r.2) ∧
      (r = best ∨ (r.1 ∈ ls ∧ volumeAt buys sells r.1 = r.2 ∧ best.2 < r.2 ∧
        ∀ l ∈ ls, volumeAt buys sells l = r.2 → r.1.val ≤ l.val)) := by
  induction ls generalizing best with
  | nil => exact ⟨h ▸ le_rfl, fun l hl => absurd hl not_mem_nil, .inl h.symm⟩
  | cons level ls ih =>
    obtain ⟨hfirst, hrest⟩ := pairwise_cons.mp hsorted
    have hstep : scanLevels buys sells (level :: ls) best = scanLevels buys sells ls
        (if volumeAt buys sells level > best.2 then (level, volumeAt buys sells level)
          else best) := rfl
    rw [hstep] at h
    by_cases hbetter : volumeAt buys sells level > best.2
    · rw [if_pos hbetter] at h
      obtain ⟨hge, hall, hwhich⟩ := ih hrest h
      refine ⟨hbetter.le.trans hge, forall_mem_cons.mpr ⟨hge, hall⟩, .inr ?_⟩
      rcases hwhich with rfl | ⟨hmem, hat, hlt, hleast⟩
      · refine ⟨mem_cons_self, rfl, hbetter, ?_⟩
        intro l hl _
        rcases mem_cons.mp hl with rfl | hl
        · exact le_rfl
        · exact (hfirst l hl).le
      · refine ⟨mem_cons_of_mem _ hmem, hat, hbetter.trans hlt, ?_⟩
        intro l hl hvol
        rcases mem_cons.mp hl with rfl | hl
        · exact absurd hvol hlt.ne
        · exact hleast l hl hvol
    · rw [if_neg hbetter] at h
      obtain ⟨hge, hall, hwhich⟩ := ih hrest h
      refine ⟨hge, forall_mem_cons.mpr ⟨(not_lt.mp hbetter).trans hge, hall⟩, ?_⟩
      rcases hwhich with hsame | ⟨hmem, hat, hlt, hleast⟩
      · exact .inl hsame
      refine .inr ⟨mem_cons_of_mem _ hmem, hat, hlt, ?_⟩
      intro l hl hvol
      rcases mem_cons.mp hl with rfl | hl
      · rw [gt_iff_lt, hvol] at hbetter
        exact absurd hlt hbetter
      · exact hleast l hl hvol

instance : Std.Total fun a b : Sint 16 => a.val ≤ b.val := ⟨fun a b => le_total a.val b.val⟩

instance : IsTrans (Sint 16) fun a b => a.val ≤ b.val := ⟨fun _ _ _ h h' => h.trans h'⟩

theorem mem_levels {l : Sint 16} :
    l ∈ levels buys sells ↔ ∃ e ∈ buys ++ sells, e.offsetBps = l := by
  rw [levels, mem_insertionSort, mem_dedup, mem_map]

theorem levels_sorted (buys sells : List Entry) :
    (levels buys sells).Pairwise fun a b => a.val < b.val := by
  have hle := pairwise_insertionSort (fun a b : Sint 16 => a.val ≤ b.val)
    ((buys ++ sells).map Entry.offsetBps).dedup
  have hne : (levels buys sells).Nodup :=
    (perm_insertionSort _ _).nodup_iff.mpr (nodup_dedup _)
  exact (hle.and hne).imp fun h => lt_of_le_of_ne h.1 fun heq => h.2 (Sint.ext heq)

theorem first_of_insertionSort {r : Entry → Entry → Prop} [DecidableRel r] [Std.Total r]
    [IsTrans Entry r] {t : List Entry} {a : Entry} (h : l.insertionSort r = a :: t) :
    a ∈ l ∧ ∀ b ∈ l, r a b := by
  have hsorted := pairwise_insertionSort r l
  have hmem := fun b => mem_insertionSort r (l := l) (x := b)
  rw [h] at hsorted hmem
  refine ⟨(hmem a).mp mem_cons_self, fun b hb => ?_⟩
  rcases mem_cons.mp ((hmem b).mpr hb) with rfl | hb
  · exact (Std.Total.total b b).elim id id
  · exact rel_of_pairwise_cons hsorted hb

theorem crossing_iff : crossing buys sells ↔
      ∃ b ∈ buys, ∃ s ∈ sells, s.offsetBps.val ≤ b.offsetBps.val := by
  unfold crossing
  split
  · rename_i b bs s ss hb hs
    obtain ⟨hb, hbest⟩ := first_of_insertionSort hb
    obtain ⟨hs, hcheapest⟩ := first_of_insertionSort hs
    rw [decide_eq_true_eq]
    constructor
    · intro hcross
      exact ⟨b, hb, s, hs, hcross⟩
    · rintro ⟨b', hb', s', hs', hcross⟩
      exact (hcheapest s' hs').trans (hcross.trans (hbest b' hb'))
  · rename_i hempty
    refine iff_of_false Bool.false_ne_true ?_
    rintro ⟨b, hb, _, hs, -⟩
    obtain ⟨b', bs, hb'⟩ := exists_cons_of_ne_nil
      (ne_nil_of_mem ((mem_insertionSort fun a b : Entry =>
        b.offsetBps.val ≤ a.offsetBps.val).mpr hb))
    obtain ⟨s', ss, hs'⟩ := exists_cons_of_ne_nil
      (ne_nil_of_mem ((mem_insertionSort fun a b : Entry =>
        a.offsetBps.val ≤ b.offsetBps.val).mpr hs))
    exact hempty b' bs s' ss hb' hs'

/-- What `computeClearing` finds before it packs its answer. -/
def bestLevel (buys sells : List Entry) : Sint 16 × Nat :=
  if crossing buys sells then
    scanLevels buys sells (levels buys sells) (.zero, 0)
  else (.zero, 0)

theorem bestLevel_mem (buys sells : List Entry) : (bestLevel buys sells).1 = .zero ∨
      ∃ e ∈ buys ++ sells, e.offsetBps = (bestLevel buys sells).1 := by
  unfold bestLevel
  split
  · rcases (scanLevels_best (levels_sorted buys sells)
      (rfl : scanLevels buys sells (levels buys sells) (.zero, 0) = _)).2.2 with h | h
    · exact .inl (congrArg Prod.fst h)
    · exact .inr (mem_levels.mp h.1)
  · exact .inl rfl

theorem bestLevel_maximal (buys sells : List Entry) :
    IsGreatest (.range (volumeAt buys sells)) (bestLevel buys sells).2 ∧
      (0 < (bestLevel buys sells).2 →
        (∃ e ∈ buys ++ sells, e.offsetBps = (bestLevel buys sells).1) ∧
        volumeAt buys sells (bestLevel buys sells).1 = (bestLevel buys sells).2 ∧
        ∀ e ∈ buys ++ sells, volumeAt buys sells e.offsetBps = (bestLevel buys sells).2 →
          (bestLevel buys sells).1.val ≤ e.offsetBps.val) := by
  unfold bestLevel
  split
  · obtain ⟨-, hall, hwhich⟩ := scanLevels_best
      (levels_sorted buys sells)
      (rfl : scanLevels buys sells (levels buys sells) (.zero, 0) = _)
    have hbound : ∀ x, volumeAt buys sells x ≤
        (scanLevels buys sells (levels buys sells) (.zero, 0)).2 := by
      intro x
      rcases volumeAt_le_submitted buys sells x with hzero | ⟨b, hb, hle⟩
      · rw [hzero]
        exact Nat.zero_le _
      · exact hle.trans (hall _ (mem_levels.mpr ⟨b, mem_append_left _ hb, rfl⟩))
    rcases hwhich with hsame | ⟨hmem, hat, _, hleast⟩
    · rw [hsame] at hbound ⊢
      refine ⟨⟨⟨.zero, Nat.le_zero.mp (hbound .zero)⟩, ?_⟩, fun h => absurd h (lt_irrefl 0)⟩
      rintro _ ⟨x, rfl⟩
      exact hbound x
    refine ⟨⟨⟨_, hat⟩, ?_⟩, fun _ => ⟨mem_levels.mp hmem, hat, ?_⟩⟩
    · rintro _ ⟨x, rfl⟩
      exact hbound x
    · intro e he
      exact hleast _ (mem_levels.mpr ⟨e, he, rfl⟩)
  · rename_i hcross
    rw [crossing_iff] at hcross
    push Not at hcross
    have hzero : ∀ x, volumeAt buys sells x = 0 := by
      intro x
      refine volumeAt_eq_zero ?_
      by_contra hboth
      push Not at hboth
      obtain ⟨⟨b, hb, hxb⟩, ⟨s, hs, hsx⟩⟩ := hboth
      exact absurd (hsx.trans hxb) (not_le.mpr (hcross b hb s hs))
    refine ⟨⟨⟨.zero, hzero _⟩, ?_⟩, fun h => absurd h (lt_irrefl 0)⟩
    rintro _ ⟨x, rfl⟩
    exact (hzero x).le

theorem computeClearing_eq (oracle : Sint 256) (buys sells : List Entry) :
    (computeClearing oracle buys sells).offsetBps = (bestLevel buys sells).1 ∧
      (computeClearing oracle buys sells).matchedVolume = .truncate (bestLevel buys sells).2 ∧
      (computeClearing oracle buys sells).price =
        resolveOffset oracle (bestLevel buys sells).1 := by
  unfold computeClearing bestLevel
  by_cases hcross : crossing buys sells
  · obtain ⟨_, hb, _, hs, -⟩ := crossing_iff.mp hcross
    have hsides : ¬ (buys = [] ∨ sells = [] ∨ crossing buys sells = false) := by
      rintro (rfl | rfl | hno)
      · exact absurd hb not_mem_nil
      · exact absurd hs not_mem_nil
      · rw [hcross] at hno
        cases hno
    rw [if_neg hsides, if_pos hcross]
    exact ⟨rfl, rfl, rfl⟩
  · rw [if_pos (.inr (.inr (Bool.not_eq_true _ ▸ hcross))), if_neg hcross]
    exact ⟨rfl, rfl, (Sint.ext (resolveOffset_zero oracle)).symm⟩

theorem matchedVolume_le (oracle : Sint 256) (buys sells : List Entry) :
    (computeClearing oracle buys sells).matchedVolume.val ≤ volume buys ∧
      (computeClearing oracle buys sells).matchedVolume.val ≤ volume sells := by
  obtain ⟨x, hx⟩ := (bestLevel_maximal buys sells).1.1
  have hcut : (computeClearing oracle buys sells).matchedVolume.val ≤
      volumeAt buys sells x := by
    rw [(computeClearing_eq oracle buys sells).2.1, hx]
    exact Nat.mod_le _ _
  exact ⟨hcut.trans ((min_le_left _ _).trans (volume_filter_le _ _)),
    hcut.trans ((min_le_right _ _).trans (volume_filter_le _ _))⟩

theorem volume_perm {l' : List Entry} (h : l.Perm l') : volume l = volume l' :=
  (h.map _).sum_eq

theorem computeClearing_perm {buys' sells' : List Entry} (hbuys : buys'.Perm buys)
    (hsells : sells'.Perm sells) (oracle : Sint 256) :
    computeClearing oracle buys' sells' = computeClearing oracle buys sells := by
  have hdemand : cumDemand buys' = cumDemand buys :=
    funext fun _ => volume_perm (hbuys.filter _)
  have hsupply : cumSupply sells' = cumSupply sells :=
    funext fun _ => volume_perm (hsells.filter _)
  have hscan : ∀ ls, scanLevels buys' sells' ls = scanLevels buys sells ls := by
    intro _
    unfold scanLevels
    rw [hdemand, hsupply]
  have hlevels : levels buys' sells' = levels buys sells := by
    have hperm : (levels buys' sells').Perm (levels buys sells) := by
      refine (perm_insertionSort _ _).trans (List.Perm.trans ?_
        (perm_insertionSort _ _).symm)
      exact ((hbuys.append hsells).map _).dedup
    refine hperm.eq_of_pairwise ?_ (levels_sorted _ _) (levels_sorted _ _)
    intro _ _ _ _ hab hba
    exact absurd hab hba.asymm
  have hcross : crossing buys' sells' = crossing buys sells := by
    rw [Bool.eq_iff_iff, crossing_iff, crossing_iff]
    simp only [hbuys.mem_iff, hsells.mem_iff]
  have hempty : ∀ {l l' : List Entry}, l'.Perm l → (l' = [] ↔ l = []) := by
    intro _ _ h
    rw [← length_eq_zero_iff, ← length_eq_zero_iff, h.length_eq]
  unfold computeClearing
  simp only [hempty hbuys, hempty hsells, hcross, hlevels, hscan]

theorem volume_lt_of_length {entries : List Entry} (h : entries.length ≤ 2 ^ 128) :
    volume entries < 2 ^ 256 := by
  have hsum : volume entries ≤ entries.length * (2 ^ 128 - 1) := by
    have hle := sum_le_card_nsmul (entries.map fun e => e.size.val) (2 ^ 128 - 1) (by
      intro _ hn
      obtain ⟨e, -, rfl⟩ := mem_map.mp hn
      have hsize := e.size.lt_two_pow
      omega)
    simpa [volume] using hle
  have hmul : entries.length * (2 ^ 128 - 1) ≤ 2 ^ 128 * (2 ^ 128 - 1) :=
    Nat.mul_le_mul_right _ h
  exact (hsum.trans hmul).trans_lt (by norm_num)

/-- The matched volume is the largest that any offset matches, in the 256 bits of the answer, which
hold it unless there are more than `2^128` entries; a positive one is found at the least
submitted offset that matches it; and the order of the entries plays no part. -/
theorem computeClearing_maximal (oraclePrice : Sint 256) (buys sells : List Entry) :
    ∃ M, IsGreatest (.range fun x : Sint 16 => min (cumDemand buys x) (cumSupply sells x)) M ∧
      (computeClearing oraclePrice buys sells).matchedVolume.val = M % 2 ^ 256 ∧
      (buys.length ≤ 2 ^ 128 → (computeClearing oraclePrice buys sells).matchedVolume.val = M) ∧
      (0 < M → (∃ e ∈ buys ++ sells,
          e.offsetBps = (computeClearing oraclePrice buys sells).offsetBps) ∧
        volumeAt buys sells (computeClearing oraclePrice buys sells).offsetBps = M ∧
        ∀ e ∈ buys ++ sells, volumeAt buys sells e.offsetBps = M →
          (computeClearing oraclePrice buys sells).offsetBps.val ≤ e.offsetBps.val) ∧
      ∀ buys' sells' : List Entry, buys'.Perm buys → sells'.Perm sells →
        computeClearing oraclePrice buys' sells' = computeClearing oraclePrice buys sells := by
  obtain ⟨hmax, hleast⟩ := bestLevel_maximal buys sells
  obtain ⟨hoffset, hvolume, -⟩ := computeClearing_eq oraclePrice buys sells
  rw [hoffset, hvolume]
  refine ⟨_, hmax, rfl, ?_, hleast, fun _ _ hbuys hsells =>
    computeClearing_perm hbuys hsells oraclePrice⟩
  intro hlength
  obtain ⟨x, hx⟩ := hmax.1
  refine Uint.truncate_of_lt ?_
  calc (bestLevel buys sells).2 = volumeAt buys sells x := hx.symm
    _ ≤ volume buys := (min_le_left _ _).trans (volume_filter_le _ _)
    _ < 2 ^ 256 := volume_lt_of_length hlength

end HyperPax.PaxSpot
