/-
  Vesting/Schedule.lean --- schedules of coins over time.

  Source: x/vesting/types/schedule.go and utils.go.

  The denominations in use are a finite type, and coins are an amount for each of them;
  the operations of `sdk.Coins` are then pointwise.  The amounts of valid coins are
  natural numbers, and so are those of the keeper's accounts; what is read of an account is
  defined over any amounts, because `Validate` does not look at the signs of those it is given.
  Times are 64-bit integers that wrap around.  A schedule is a start time and a list of
  periods, each with an event at its end.
-/
import HyperPax.Lib.Word

set_option autoImplicit false

namespace HyperPax.Vesting

open Lib List

/-- `sdk.Coins`; valid ones unless other amounts are named. -/
abbrev Coins (D : Type) (R : Type := Nat) : Type := D → R

/-- An `int64` number of seconds. -/
abbrev Time : Type := Sint 64

/-- Addition and subtraction of `int64`. -/
def Time.add (a b : Time) : Time := .wrap (a.val + b.val)

def Time.sub (a b : Time) : Time := .wrap (a.val - b.val)

/-- `Min64` and `Max64`. -/
def min64 (i j : Time) : Time := if i.val < j.val then i else j

def max64 (i j : Time) : Time := if i.val > j.val then i else j

/-- A period of a schedule: its length, and what is paid at its end. -/
structure Period (D : Type) (R : Type := Nat) where
  length : Time
  amount : Coins D R

variable {D R : Type} {t t' : Time}

/-- `TotalAmount`. -/
def totalAmount [Add R] [Zero R] (periods : List (Period D R)) : Coins D R :=
  (periods.map Period.amount).sum

@[simp] theorem totalAmount_nil [Add R] [Zero R] : totalAmount ([] : List (Period D R)) = 0 := rfl

@[simp] theorem totalAmount_cons [Add R] [Zero R] (p : Period D R) (ps : List (Period D R)) :
    totalAmount (p :: ps) = p.amount + totalAmount ps := by
  rw [totalAmount, totalAmount, map_cons, sum_cons]

@[simp] theorem totalAmount_append (ps qs : List (Period D)) :
    totalAmount (ps ++ qs) = totalAmount ps + totalAmount qs := by
  rw [totalAmount, totalAmount, totalAmount, map_append, sum_append]

/-- `TotalLength`. -/
def totalLength (periods : List (Period D R)) : Time :=
  periods.foldl (fun total p => total.add p.length) .zero

/-! ## Reading a schedule -/

/-- The loop of `ReadSchedule`: the events up to the time of reading. -/
def readEvents [Add R] (readTime : Time) : Time → Coins D R → List (Period D R) → Coins D R
  | _, coins, [] => coins
  | elapsedTime, coins, p :: ps =>
    if readTime.val < (elapsedTime.add p.length).val then coins
    else readEvents readTime (elapsedTime.add p.length) (coins + p.amount) ps

/-- `ReadSchedule`. -/
def readSchedule [Add R] [Zero R] (startTime endTime : Time) (periods : List (Period D R))
    (totalCoins : Coins D R) (readTime : Time) : Coins D R :=
  if readTime.val ≤ startTime.val then 0
  else if readTime.val ≥ endTime.val then totalCoins
  else readEvents readTime startTime 0 periods

section

variable [AddCommMonoid R] [LinearOrder R] [IsOrderedAddMonoid R] {periods : List (Period D R)}
  {totalCoins : Coins D R}

theorem totalAmount_nonneg (hperiods : ∀ p ∈ periods, 0 ≤ p.amount) : 0 ≤ totalAmount periods :=
  sum_nonneg (forall_mem_map.mpr hperiods)

theorem readEvents_le (hperiods : ∀ p ∈ periods, 0 ≤ p.amount) (readTime : Time) :
    ∀ (elapsedTime : Time) (coins : Coins D R),
      readEvents readTime elapsedTime coins periods ≤ coins + totalAmount periods := by
  induction periods with
  | nil =>
    intro elapsedTime coins
    exact le_add_of_nonneg_right le_rfl
  | cons p ps ih =>
    intro elapsedTime coins
    rw [readEvents]
    split
    · exact le_add_of_nonneg_right (totalAmount_nonneg hperiods)
    calc readEvents readTime (elapsedTime.add p.length) (coins + p.amount) ps
        ≤ coins + p.amount + totalAmount ps := ih (forall_mem_cons.mp hperiods).2 _ _
      _ = coins + totalAmount (p :: ps) := by rw [totalAmount_cons, add_assoc]

theorem readSchedule_le (hperiods : ∀ p ∈ periods, 0 ≤ p.amount)
    (h : totalAmount periods ≤ totalCoins) (startTime endTime readTime : Time) :
    readSchedule startTime endTime periods totalCoins readTime ≤ totalCoins := by
  rw [readSchedule]
  split
  · exact (totalAmount_nonneg hperiods).trans h
  split
  · exact le_rfl
  calc readEvents readTime startTime 0 periods
      ≤ 0 + totalAmount periods := readEvents_le hperiods readTime startTime 0
    _ = totalAmount periods := zero_add _
    _ ≤ totalCoins := h

theorem le_readEvents (hperiods : ∀ p ∈ periods, 0 ≤ p.amount) (readTime : Time) :
    ∀ (elapsedTime : Time) (coins : Coins D R),
      coins ≤ readEvents readTime elapsedTime coins periods := by
  induction periods with
  | nil =>
    intro elapsedTime coins
    exact le_rfl
  | cons _ _ ih =>
    intro _ _
    obtain ⟨hfirst, hrest⟩ := forall_mem_cons.mp hperiods
    rw [readEvents]
    split
    · exact le_rfl
    · exact (le_add_of_nonneg_right hfirst).trans (ih hrest _ _)

theorem readEvents_mono (hperiods : ∀ p ∈ periods, 0 ≤ p.amount) (hle : t.val ≤ t'.val) :
    ∀ (elapsedTime : Time) (coins : Coins D R),
      readEvents t elapsedTime coins periods ≤ readEvents t' elapsedTime coins periods := by
  induction periods with
  | nil =>
    intro elapsedTime coins
    exact le_rfl
  | cons p _ ih =>
    intro elapsedTime _
    by_cases hlater : t.val < (elapsedTime.add p.length).val
    · rw [readEvents, if_pos hlater]
      exact le_readEvents hperiods t' _ _
    · rw [readEvents, readEvents, if_neg hlater, if_neg (by omega)]
      exact ih (forall_mem_cons.mp hperiods).2 _ _

theorem readSchedule_nonneg (hperiods : ∀ p ∈ periods, 0 ≤ p.amount)
    (h : totalAmount periods ≤ totalCoins) (startTime endTime readTime : Time) :
    0 ≤ readSchedule startTime endTime periods totalCoins readTime := by
  rw [readSchedule]
  split
  · exact le_rfl
  split
  · exact (totalAmount_nonneg hperiods).trans h
  · exact le_readEvents hperiods readTime startTime 0

theorem readSchedule_mono (hperiods : ∀ p ∈ periods, 0 ≤ p.amount)
    (h : totalAmount periods ≤ totalCoins) (startTime endTime : Time) (hle : t.val ≤ t'.val) :
    readSchedule startTime endTime periods totalCoins t ≤
      readSchedule startTime endTime periods totalCoins t' := by
  by_cases hstart : t.val ≤ startTime.val
  · rw [readSchedule, if_pos hstart]
    exact readSchedule_nonneg hperiods h startTime endTime t'
  by_cases hend : t'.val ≥ endTime.val
  · have hall : readSchedule startTime endTime periods totalCoins t' = totalCoins := by
      rw [readSchedule, if_neg (by omega), if_pos hend]
    rw [hall]
    exact readSchedule_le hperiods h startTime endTime t
  · rw [readSchedule, readSchedule, if_neg hstart, if_neg (by omega), if_neg (by omega),
      if_neg hend]
    exact readEvents_mono hperiods hle startTime 0

end

/-- The loop of `ReadPastPeriodCount`. -/
def countEvents (readTime : Time) : Time → List (Period D R) → Nat
  | _, [] => 0
  | elapsedTime, p :: ps =>
    if readTime.val < (elapsedTime.add p.length).val then 0
    else countEvents readTime (elapsedTime.add p.length) ps + 1

/-- `ReadPastPeriodCount`. -/
def readPastPeriodCount (startTime endTime : Time) (periods : List (Period D R))
    (readTime : Time) : Nat :=
  if readTime.val ≤ startTime.val then 0
  else if readTime.val ≥ endTime.val then periods.length
  else countEvents readTime startTime periods

/-! ## The union of two schedules -/

/-- What `DisjunctPeriods` and `ConjunctPeriods` return. -/
structure Schedule (D : Type) (R : Type := Nat) where
  startTime : Time
  endTime : Time
  periods : List (Period D R)

/-- The variables of `DisjunctPeriods`: the times of the last merged event of either schedule and of
the result, and the periods so far. -/
structure Disjunction (D : Type) where
  timeA : Time
  timeB : Time
  endTime : Time
  periods : List (Period D)

namespace Disjunction

def emit (s : Disjunction D) (nextTime : Time) (amount : Coins D) : Disjunction D :=
  { s with
    periods := s.periods ++ [⟨nextTime.sub s.endTime, amount⟩]
    endTime := nextTime }

def consumeA (s : Disjunction D) (nextTime : Time) (a : Period D) : Disjunction D :=
  { s.emit nextTime a.amount with timeA := nextTime }

def consumeB (s : Disjunction D) (nextTime : Time) (b : Period D) : Disjunction D :=
  { s.emit nextTime b.amount with timeB := nextTime }

def consumeBoth (s : Disjunction D) (nextTime : Time) (a b : Period D) : Disjunction D :=
  { s.emit nextTime (a.amount + b.amount) with
    timeA := nextTime
    timeB := nextTime }

/-- The three loops; one event is consumed in each iteration, so there are at most as many as
there are events. -/
def run : Nat → Disjunction D → List (Period D) → List (Period D) → Disjunction D
  | n + 1, s, a :: as, b :: bs =>
    let nextA := s.timeA.add a.length
    let nextB := s.timeB.add b.length
    if nextA.val < nextB.val then run n (s.consumeA nextA a) as (b :: bs)
    else if nextA.val > nextB.val then run n (s.consumeB nextB b) (a :: as) bs
    else run n (s.consumeBoth nextA a b) as bs
  | n + 1, s, a :: as, [] => run n (s.consumeA (s.timeA.add a.length) a) as []
  | n + 1, s, [], b :: bs => run n (s.consumeB (s.timeB.add b.length) b) [] bs
  | _, s, _, _ => s

theorem totalAmount_emit (s : Disjunction D) (nextTime : Time) (amount : Coins D) :
    totalAmount (s.emit nextTime amount).periods = totalAmount s.periods + amount := by
  rw [emit, totalAmount_append, totalAmount_cons, totalAmount_nil, add_zero]

theorem nil_of_stuck {n : Nat} {as bs : List (Period D)} (hlen : as.length + bs.length ≤ n)
    (hboth : ∀ m a as' b bs', n = m + 1 → as = a :: as' → bs = b :: bs' → False)
    (hA : ∀ m a as', n = m + 1 → as = a :: as' → bs = [] → False)
    (hB : ∀ m b bs', n = m + 1 → as = [] → bs = b :: bs' → False) : as = [] ∧ bs = [] := by
  cases n with
  | zero => exact ⟨eq_nil_of_length_eq_zero (by omega), eq_nil_of_length_eq_zero (by omega)⟩
  | succ n =>
    cases as with
    | nil =>
      cases bs with
      | nil => exact ⟨rfl, rfl⟩
      | cons b bs => exact (hB n b bs rfl rfl rfl).elim
    | cons a as =>
      cases bs with
      | nil => exact (hA n a as rfl rfl rfl).elim
      | cons b bs => exact (hboth n a as b bs rfl rfl rfl).elim

theorem totalAmount_run (n : Nat) (s : Disjunction D) (as bs : List (Period D))
    (hlen : as.length + bs.length ≤ n) : totalAmount (run n s as bs).periods =
      totalAmount s.periods + (totalAmount as + totalAmount bs) := by
  fun_induction run n s as bs with
  | case1 n s a as b bs nextA nextB hlt ih | case4 n s a as ih =>
    rw [ih (by grind), consumeA, totalAmount_emit, totalAmount_cons a]
    abel
  | case2 n s a as b bs nextA nextB hle hgt ih | case5 n s b bs ih =>
    rw [ih (by grind), consumeB, totalAmount_emit, totalAmount_cons b]
    abel
  | case3 _ _ a _ b _ _ _ _ _ ih =>
    rw [ih (by grind), consumeBoth, totalAmount_emit, totalAmount_cons a, totalAmount_cons b]
    abel
  | case6 _ _ _ _ hboth hA hB =>
    obtain ⟨rfl, rfl⟩ := nil_of_stuck hlen hboth hA hB
    rw [totalAmount_nil, add_zero, add_zero]

end Disjunction

/-- `DisjunctPeriods`. -/
def disjunctPeriods (startA startB : Time) (periodsA periodsB : List (Period D)) : Schedule D :=
  let startTime := min64 startA startB
  let result := Disjunction.run (periodsA.length + periodsB.length)
    ⟨startA, startB, startTime, []⟩ periodsA periodsB
  ⟨startTime, result.endTime, result.periods⟩

theorem totalAmount_disjunctPeriods (startA startB : Time) (periodsA periodsB : List (Period D)) :
    totalAmount (disjunctPeriods startA startB periodsA periodsB).periods =
      totalAmount periodsA + totalAmount periodsB := by
  rw [disjunctPeriods, Disjunction.totalAmount_run _ _ _ _ le_rfl, totalAmount_nil, zero_add]

/-! ## The minimum of two schedules -/

/-- `Coins.Min`: a denomination that one of the two does not hold is left out. -/
def Coins.min [Zero R] [Min R] [DecidableEq R] (a b : Coins D R) : Coins D R := fun d =>
  if a d = 0 ∨ b d = 0 then 0 else Min.min (a d) (b d)

/-- The variables of `ConjunctPeriods`. -/
structure Conjunction (D R : Type) where
  resultingAmount : Coins D R
  totalA : Coins D R
  totalB : Coins D R
  timeA : Time
  timeB : Time
  endTime : Time
  periods : List (Period D R)

namespace Conjunction

variable [Fintype D] [Add R] [Zero R] [Sub R] [Min R] [LE R] [DecidableLE R] [DecidableEq R]

/-- The end of the three `consume` functions: emit what the minimum has grown by. -/
def settle (s : Conjunction D R) (nextTime : Time) : Conjunction D R :=
  let minimum := Coins.min s.totalA s.totalB
  let diff := minimum - s.resultingAmount
  if (∀ d, s.resultingAmount d ≤ minimum d) ∧ ¬ ∀ d, diff d = 0 then
    { s with
      periods := s.periods ++ [⟨nextTime.sub s.endTime, diff⟩]
      endTime := nextTime
      resultingAmount := s.resultingAmount + diff }
  else s

def consumeA (s : Conjunction D R) (nextTime : Time) (a : Period D R) : Conjunction D R :=
  { settle { s with totalA := s.totalA + a.amount } nextTime with timeA := nextTime }

def consumeB (s : Conjunction D R) (nextTime : Time) (b : Period D R) : Conjunction D R :=
  { settle { s with totalB := s.totalB + b.amount } nextTime with timeB := nextTime }

def consumeBoth (s : Conjunction D R) (nextTime : Time) (a b : Period D R) : Conjunction D R :=
  { settle { s with totalA := s.totalA + a.amount, totalB := s.totalB + b.amount } nextTime with
    timeA := nextTime
    timeB := nextTime }

def run : Nat → Conjunction D R → List (Period D R) → List (Period D R) → Conjunction D R
  | n + 1, s, a :: as, b :: bs =>
    let nextA := s.timeA.add a.length
    let nextB := s.timeB.add b.length
    if nextA.val < nextB.val then run n (s.consumeA nextA a) as (b :: bs)
    else if nextA.val > nextB.val then run n (s.consumeB nextB b) (a :: as) bs
    else run n (s.consumeBoth nextA a b) as bs
  | n + 1, s, a :: as, [] => run n (s.consumeA (s.timeA.add a.length) a) as []
  | n + 1, s, [], b :: bs => run n (s.consumeB (s.timeB.add b.length) b) [] bs
  | _, s, _, _ => s

end Conjunction

/-- `ConjunctPeriods`. -/
def conjunctPeriods [Fintype D] [Add R] [Zero R] [Sub R] [Min R] [LE R] [DecidableLE R]
    [DecidableEq R] (startA startB : Time) (periodsA periodsB : List (Period D R)) :
    Schedule D R :=
  let startTime := min64 startA startB
  let result := Conjunction.run (periodsA.length + periodsB.length)
    ⟨0, 0, 0, startA, startB, startTime, []⟩ periodsA periodsB
  ⟨startTime, result.endTime, result.periods⟩

end HyperPax.Vesting
