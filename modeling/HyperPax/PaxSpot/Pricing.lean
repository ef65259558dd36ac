/-
  PaxSpot/Pricing.lean --- the precompiles `orob`, `clearing` and `pofq`.

  All three compute with unbounded integers and hand their results back through the
  ABI, which keeps the low 256 bits: a price that leaves the range of `int256` comes
  back as another price.  `Div` of `math/big` is Euclidean, as `/` on `Int` is.
-/
import HyperPax.PaxSpot.Types

set_option autoImplicit false

namespace HyperPax.PaxSpot

open Lib

/-! ## Offsets -/

/-- `computeAbsolutePrice`: `oraclePrice * (10000 + offsetBps) / 10000`. -/
def computeAbsolutePrice (oraclePrice : Int) (offsetBps : Sint 16) : Int :=
  oraclePrice * (10000 + offsetBps.val) / 10000

/-- `resolveOffset`, as the contracts receive it. -/
def resolveOffset (oraclePrice : Sint 256) (offsetBps : Sint 16) : Sint 256 :=
  .wrap (computeAbsolutePrice oraclePrice.val offsetBps)

variable {oracle : Int} {a : Sint 16}

theorem computeAbsolutePrice_mono (h : 0 ≤ oracle) {b : Sint 16} (hab : a.val ≤ b.val) :
    computeAbsolutePrice oracle a ≤ computeAbsolutePrice oracle b := by
  refine Int.ediv_le_ediv (by decide) ?_
  exact mul_le_mul_of_nonneg_left (by omega) h

theorem computeAbsolutePrice_nonneg (h : 0 ≤ oracle) (ha : -10000 ≤ a.val) :
    0 ≤ computeAbsolutePrice oracle a := by
  refine Int.ediv_nonneg ?_ (by decide)
  exact mul_nonneg h (by omega)

theorem resolveOffset_val {oracle : Sint 256} {offsetBps : Sint 16}
    (h : Sint.Fits 256 (computeAbsolutePrice oracle.val offsetBps)) :
    (resolveOffset oracle offsetBps).val = computeAbsolutePrice oracle.val offsetBps :=
  Sint.wrap_of_fits (by decide) h

/-! ## Clearing -/

/-- What `computeClearing` answers. -/
structure Clearing where
  offsetBps : Sint 16
  price : Sint 256
  matchedVolume : Uint 256

/-- The total size of some entries. -/
def volume (entries : List Entry) : Nat := (entries.map fun e => e.size.val).sum

/-- Buys willing to pay the level. -/
def cumDemand (buys : List Entry) (level : Sint 16) : Nat :=
  volume (buys.filter fun b => level.val ≤ b.offsetBps.val)

/-- Sells willing to accept the level. -/
def cumSupply (sells : List Entry) (level : Sint 16) : Nat :=
  volume (sells.filter fun s => s.offsetBps.val ≤ level.val)

/-- All offsets that occur, once each, ascending. -/
def levels (buys sells : List Entry) : List (Sint 16) :=
  ((buys ++ sells).map Entry.offsetBps).dedup.insertionSort fun a b => a.val ≤ b.val

/-- The loop over the levels: keep the first level with the largest volume. -/
def scanLevels (buys sells : List Entry) (ls : List (Sint 16)) (best : Sint 16 × Nat) :
    Sint 16 × Nat :=
  ls.foldl (fun best level =>
    let vol := min (cumDemand buys level) (cumSupply sells level)
    if vol > best.2 then (level, vol) else best) best

/-- The most aggressive offset of each side crosses the other. -/
def crossing (buys sells : List Entry) : Bool :=
  match buys.insertionSort (fun a b => b.offsetBps.val ≤ a.offsetBps.val),
    sells.insertionSort (fun a b => a.offsetBps.val ≤ b.offsetBps.val) with
  | b :: _, s :: _ => decide (s.offsetBps.val ≤ b.offsetBps.val)
  | _, _ => false

/-- `computeClearing`.  Empty sides and sides that do not cross answer the oracle price and no
volume. -/
def computeClearing (oraclePrice : Sint 256) (buys sells : List Entry) : Clearing :=
  if buys = [] ∨ sells = [] ∨ crossing buys sells = false then
    ⟨.zero, oraclePrice, .zero⟩
  else
    let best := scanLevels buys sells (levels buys sells) (.zero, 0)
    ⟨best.1, resolveOffset oraclePrice best.1, .truncate best.2⟩

theorem volume_filter_le (entries : List Entry) (p : Entry → Bool) :
    volume (entries.filter p) ≤ volume entries := by
  refine List.Sublist.sum_le_sum (List.filter_sublist.map _) ?_
  intro n _
  exact Nat.zero_le n

/-! ## Fill quality -/

/-- `computeFillScore`. -/
def computeFillScore (fillPrice oraclePrice : Int) : Int :=
  if oraclePrice = 0 then 0
  else
    let deviation := |fillPrice - oraclePrice| * 10 ^ 18 / |oraclePrice|
    let score := 10 ^ 18 - deviation
    if score < 0 then 0 else score

/-- `scoreFill`, as the contracts receive it. -/
def scoreFill (fillPrice oraclePrice : Sint 256) : Uint 256 :=
  .truncate (computeFillScore fillPrice.val oraclePrice.val).toNat

/-- `scoreBatch`, as a caller receives it: the average score weighted by size, and the total
size.  Arrays of different lengths are an error. -/
def scoreBatch (fillPrices oraclePrices : List (Sint 256)) (sizes : List (Uint 256)) :
    Except String (Uint 256 × Uint 256) :=
  if fillPrices.length ≠ oraclePrices.length ∨ fillPrices.length ≠ sizes.length then
    .error (s!"array length mismatch: fills={fillPrices.length} " ++
      s!"oracles={oraclePrices.length} sizes={sizes.length}")
  else if fillPrices = [] then .ok (.zero, .zero)
  else
    let scores := List.zipWith (fun f o => computeFillScore f.val o.val) fillPrices oraclePrices
    let weightedSum := (List.zipWith (fun s n => s * (n.val : Int)) scores sizes).sum
    let totalVolume := (sizes.map fun n => (n.val : Int)).sum
    if totalVolume = 0 then .ok (.zero, .zero)
    else .ok (.truncate (weightedSum / totalVolume).toNat, .truncate totalVolume.toNat)

/-- `updateRollingScore` with a decay below 10000: the score and the weight. -/
def updateRollingScore (currentScore currentWeight newScore : Uint 256) (newWeight decayBps : Nat) :
    Uint 256 × Uint 256 :=
  let decayFactor := 10000 - decayBps
  let oldWeighted := currentScore.val * currentWeight.val * decayFactor
  let newWeighted := newScore.val * newWeight * 10000
  let totalWeight := currentWeight.val * decayFactor + newWeight * 10000
  if totalWeight = 0 then (.zero, .zero)
  else (.truncate ((oldWeighted + newWeighted) / totalWeight), .truncate totalWeight)

end HyperPax.PaxSpot
