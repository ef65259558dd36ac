/-
  Epochs/Clock.lean --- the epoch counters of x/epochs.

  Source: x/epochs/keeper/abci.go, x/epochs/types/epoch_info.go.

  Times are nanoseconds.  A counter starts with the first block at or after its start time; from
  then on a block ends at most one epoch, however late it is, and a backlog is worked off block by
  block.  There are at most as many epochs as blocks, so the number does not overflow.
-/
import Mathlib

set_option autoImplicit false

namespace HyperPax.Epochs

open List

/-- `EpochInfo`. -/
structure EpochInfo where
  identifier : String
  startTime : Int
  duration : Int
  currentEpoch : Int
  currentEpochStartTime : Int
  epochCountingStarted : Bool
  currentEpochStartHeight : Int

structure Block where
  time : Int
  height : Int

namespace EpochInfo

/-- `StartInitialEpoch`. -/
def startInitialEpoch (e : EpochInfo) : EpochInfo :=
  { e with
    epochCountingStarted := true
    currentEpoch := 1
    currentEpochStartTime := e.startTime }

/-- `EndEpoch`. -/
def endEpoch (e : EpochInfo) : EpochInfo :=
  { e with
    currentEpoch := e.currentEpoch + 1
    currentEpochStartTime := e.currentEpochStartTime + e.duration }

/-- What `BeginBlocker` does to each stored entry; in the last case it stores nothing. -/
def beginBlocker (e : EpochInfo) (b : Block) : EpochInfo :=
  let shouldInitialEpochStart := e.epochCountingStarted = false ∧ e.startTime ≤ b.time
  let shouldEpochEnd := e.currentEpochStartTime + e.duration < b.time ∧
    ¬ shouldInitialEpochStart ∧ e.startTime ≤ b.time
  if shouldInitialEpochStart then
    startInitialEpoch { e with currentEpochStartHeight := b.height }
  else if shouldEpochEnd then endEpoch { e with currentEpochStartHeight := b.height }
  else e

/-- An entry behind the blocks of a chain. -/
def after (e : EpochInfo) (blocks : List Block) : EpochInfo := blocks.foldl beginBlocker e

/-- How far a block is behind the start of the current epoch. -/
def lag (e : EpochInfo) (b : Block) : Int := b.time - e.currentEpochStartTime

variable {e : EpochInfo} {b : Block}

theorem beginBlocker_of_new (h : e.epochCountingStarted = false) : (e.startTime ≤ b.time ∧
        e.beginBlocker b = startInitialEpoch { e with currentEpochStartHeight := b.height }) ∨
      e.beginBlocker b = e := by
  unfold beginBlocker
  by_cases hstart : e.startTime ≤ b.time
  · exact .inl ⟨hstart, if_pos ⟨h, hstart⟩⟩
  · rw [if_neg fun h => hstart h.2, if_neg fun h => hstart h.2.2]
    exact .inr rfl

theorem beginBlocker_of_started (h : e.epochCountingStarted) (hstart : e.startTime ≤ b.time) :
    e.beginBlocker b = if e.currentEpochStartTime + e.duration < b.time then
      endEpoch { e with currentEpochStartHeight := b.height } else e := by
  simp [beginBlocker, h, hstart]

theorem beginBlocker_schedule (e : EpochInfo) (b : Block) :
    (e.beginBlocker b).startTime = e.startTime ∧ (e.beginBlocker b).duration = e.duration := by
  unfold beginBlocker startInitialEpoch endEpoch
  dsimp only
  split_ifs <;> exact ⟨rfl, rfl⟩

theorem after_schedule (e : EpochInfo) (blocks : List Block) :
    (e.after blocks).startTime = e.startTime ∧ (e.after blocks).duration = e.duration := by
  induction blocks generalizing e with
  | nil => exact ⟨rfl, rfl⟩
  | cons b blocks ih =>
    obtain ⟨hstart, hduration⟩ := ih (e.beginBlocker b)
    obtain ⟨hstart', hduration'⟩ := e.beginBlocker_schedule b
    exact ⟨hstart.trans hstart', hduration.trans hduration'⟩

/-- The clock at a time: the current epoch is the one its number says, and has begun. -/
structure OnTime (e : EpochInfo) (now : Int) : Prop where
  position : e.currentEpochStartTime = e.startTime + (e.currentEpoch - 1) * e.duration
  reached : e.currentEpochStartTime ≤ now
  begun : e.startTime ≤ now

theorem OnTime.beginBlocker {now : Int} (h : e.OnTime now) (hnow : now ≤ b.time)
    (hstarted : e.epochCountingStarted) :
    (e.beginBlocker b).OnTime b.time ∧ (e.beginBlocker b).epochCountingStarted ∧
      e.currentEpoch ≤ (e.beginBlocker b).currentEpoch ∧
      (e.beginBlocker b).currentEpoch ≤ e.currentEpoch + 1 := by
  obtain ⟨hposition, hreached, hbegun⟩ := h
  rw [beginBlocker_of_started hstarted (hbegun.trans hnow)]
  split_ifs with hend
  · refine ⟨⟨?_, hend.le, hbegun.trans hnow⟩, hstarted, by simp [endEpoch], le_rfl⟩
    simp only [endEpoch]
    rw [hposition]
    ring
  · exact ⟨⟨hposition, hreached.trans hnow, hbegun.trans hnow⟩, hstarted, le_rfl, by omega⟩

theorem OnTime.lag_le {a : Block} (h : e.OnTime a.time) (horder : a.time ≤ b.time)
    (hstarted : e.epochCountingStarted) (hregular : b.time ≤ a.time + e.duration) :
    (e.beginBlocker b).lag b ≤ max e.duration (e.lag a) := by
  rw [beginBlocker_of_started hstarted (h.begun.trans horder)]
  unfold lag
  split_ifs with hend
  · simp only [endEpoch]
    omega
  · omega

theorem after_concat_onTime (hnew : e.epochCountingStarted = false) (blocks : List Block)
    (hsorted : (blocks ++ [b]).Pairwise fun a b => a.time ≤ b.time)
    (hstarted : (e.after (blocks ++ [b])).epochCountingStarted) :
    (e.after (blocks ++ [b])).OnTime b.time := by
  induction blocks using List.reverseRecOn generalizing b with
  | nil =>
    obtain ⟨hstart, h⟩ | h := beginBlocker_of_new (b := b) hnew
    · have hafter : e.after ([] ++ [b]) = _ := h
      rw [hafter]
      exact ⟨by simp [startInitialEpoch], hstart, hstart⟩
    · have hafter : e.after ([] ++ [b]) = e := h
      rw [hafter, hnew] at hstarted
      cases hstarted
  | append_singleton blocks a ih =>
    obtain ⟨hfront, -, hlast⟩ := pairwise_append.mp hsorted
    have hafter : e.after (blocks ++ [a] ++ [b]) = (e.after (blocks ++ [a])).beginBlocker b :=
      foldl_append
    rw [hafter] at hstarted ⊢
    cases hrun : (e.after (blocks ++ [a])).epochCountingStarted with
    | true => exact ((ih hfront hrun).beginBlocker (hlast a (by simp) b (by simp)) hrun).1
    | false =>
      obtain ⟨hstart, h⟩ | h := beginBlocker_of_new (b := b) hrun
      · rw [h]
        exact ⟨by simp [startInitialEpoch], hstart, hstart⟩
      · rw [h, hrun] at hstarted
        cases hstarted

end EpochInfo

/-- The epoch clock, over every chain of blocks whose times do not decrease. -/
theorem epoch_clock (e : EpochInfo) (hnew : e.epochCountingStarted = false) (chain : List Block)
    (a b : Block) (hsorted : (chain ++ [a] ++ [b]).Pairwise fun a b => a.time ≤ b.time)
    (before after : EpochInfo) (hbefore : before = e.after (chain ++ [a]))
    (hafter : after = before.beginBlocker b) (hstarted : before.epochCountingStarted) :
    before.currentEpochStartTime = e.startTime + (before.currentEpoch - 1) * e.duration ∧
      before.currentEpochStartTime ≤ a.time ∧ after.epochCountingStarted ∧
      before.currentEpoch ≤ after.currentEpoch ∧ after.currentEpoch ≤ before.currentEpoch + 1 ∧
      (b.time ≤ a.time + e.duration → after.lag b ≤ max e.duration (before.lag a)) := by
  subst hbefore hafter
  obtain ⟨hstart, hduration⟩ := e.after_schedule (chain ++ [a])
  obtain ⟨hfront, -, hlast⟩ := pairwise_append.mp hsorted
  have horder : a.time ≤ b.time := hlast a (by simp) b (by simp)
  have hclock := EpochInfo.after_concat_onTime hnew chain hfront hstarted
  obtain ⟨-, hruns, hle, hsucc⟩ := hclock.beginBlocker horder hstarted
  have hposition := hclock.position
  have hlag := hclock.lag_le horder hstarted
  rw [hstart, hduration] at hposition
  rw [hduration] at hlag
  exact ⟨hposition, hclock.reached, hruns, hle, hsucc, hlag⟩

/-- A counter that starts at 100, with a gap of five epochs. -/
theorem epoch_clock_of_gap : let e : EpochInfo := ⟨"day", 100, 10, 0, 0, false, 0⟩
    let before := e.after [⟨90, 1⟩, ⟨105, 2⟩]
    before.currentEpoch = 1 ∧ before.lag ⟨105, 2⟩ = 5 ∧
      before.currentEpoch ≤ (before.beginBlocker ⟨155, 3⟩).currentEpoch := by
  intro e before
  have hclock := epoch_clock e rfl [⟨90, 1⟩] ⟨105, 2⟩ ⟨155, 3⟩ (by simp) before _ rfl rfl rfl
  exact ⟨rfl, rfl, hclock.2.2.2.1⟩

/-! ## Hooks -/

/-- A call of a hook. -/
inductive Hook where
  | afterEpochEnd (epochNumber : Int)
  | beforeEpochStart (epochNumber : Int)

namespace EpochInfo

/-- The hooks that `BeginBlocker` calls for an entry.  Both get the number of the entry as it is
written, which `EndEpoch` has raised by then. -/
def hooks (e : EpochInfo) (b : Block) : List Hook :=
  let number := (e.beginBlocker b).currentEpoch
  let shouldInitialEpochStart := e.epochCountingStarted = false ∧ e.startTime ≤ b.time
  let shouldEpochEnd := e.currentEpochStartTime + e.duration < b.time ∧
    ¬ shouldInitialEpochStart ∧ e.startTime ≤ b.time
  if shouldInitialEpochStart then [.beforeEpochStart number]
  else if shouldEpochEnd then [.afterEpochEnd number, .beforeEpochStart number]
  else []

/-- The hook calls of a chain of blocks. -/
def calls (e : EpochInfo) : List Block → List Hook
  | [] => []
  | b :: blocks => e.hooks b ++ (e.beginBlocker b).calls blocks

/-- The calls for some epochs, given the number with which the end of each is announced. -/
def callLog (ending : Nat → Int) : Nat → List Hook
  | 0 => []
  | 1 => [.beforeEpochStart 1]
  | n + 2 => callLog ending (n + 1) ++ [.afterEpochEnd (ending (n + 1)), .beforeEpochStart (n + 2)]

/-- So many epochs have started. -/
def Started (e : EpochInfo) : Nat → Prop
  | 0 => e.epochCountingStarted = false
  | n + 1 => e.epochCountingStarted ∧ e.currentEpoch = n + 1

variable {e : EpochInfo} {b : Block} {n : Nat}

theorem Started.hooks_cases (h : e.Started n) :
    (n = 0 ∧ (e.beginBlocker b).Started 1 ∧ e.hooks b = [.beforeEpochStart 1]) ∨
      (0 < n ∧ (e.beginBlocker b).Started (n + 1) ∧
        e.hooks b = [.afterEpochEnd (n + 1), .beforeEpochStart (n + 1)]) ∨
      (e.beginBlocker b = e ∧ e.hooks b = []) := by
  unfold hooks beginBlocker
  cases n with
  | zero =>
    have hnew : e.epochCountingStarted = false := h
    by_cases hstart : e.startTime ≤ b.time
    · simp [hnew, hstart, startInitialEpoch, Started]
    · simp [hstart]
  | succ n =>
    obtain ⟨hstarted, hnumber⟩ := h
    by_cases hend : e.currentEpochStartTime + e.duration < b.time ∧ e.startTime ≤ b.time
    · simp [hstarted, hend, endEpoch, Started, hnumber]
    · simp [hstarted, hend]

theorem Started.callLog_append (h : e.Started n) (b : Block) :
    ∃ n', n ≤ n' ∧ (e.beginBlocker b).Started n' ∧
      callLog (· + 1) n ++ e.hooks b = callLog (· + 1) n' := by
  rcases h.hooks_cases (b := b) with ⟨rfl, hnext, hhooks⟩ | ⟨hpos, hnext, hhooks⟩ | ⟨hsame, hhooks⟩
  · exact ⟨1, Nat.zero_le _, hnext, by rw [hhooks]; rfl⟩
  · obtain ⟨k, rfl⟩ := Nat.exists_eq_succ_of_ne_zero hpos.ne'
    refine ⟨k + 2, Nat.le_succ _, hnext, ?_⟩
    rw [hhooks, callLog]
    push_cast
    rw [add_assoc]
    rfl
  · exact ⟨n, le_rfl, hsame.symm ▸ h, by rw [hhooks, append_nil]⟩

theorem Started.calls (h : e.Started n) (blocks : List Block) : ∃ n', n ≤ n' ∧
      (e.after blocks).Started n' ∧ callLog (· + 1) n ++ e.calls blocks = callLog (· + 1) n' := by
  induction blocks generalizing e n with
  | nil => exact ⟨n, le_rfl, h, append_nil _⟩
  | cons b blocks ih =>
    obtain ⟨n₁, hle, hnext, hlog⟩ := h.callLog_append b
    obtain ⟨n', hle', hafter, hcalls⟩ := ih hnext
    exact ⟨n', hle.trans hle', hafter, by rw [EpochInfo.calls, ← append_assoc, hlog, hcalls]⟩

/-- A block after the first epoch. -/
def PastFirst (e : EpochInfo) (b : Block) : Prop :=
  e.startTime ≤ b.time ∧ e.startTime + e.duration < b.time

theorem Started.currentEpoch_eq_one_iff (h : e.Started 1)
    (htime : e.currentEpochStartTime = e.startTime) (blocks : List Block) :
    (e.after blocks).currentEpoch = 1 ↔ ∀ b ∈ blocks, ¬ e.PastFirst b := by
  induction blocks with
  | nil => exact iff_of_true h.2 nofun
  | cons b blocks ih =>
    rw [forall_mem_cons, show e.after (b :: blocks) = (e.beginBlocker b).after blocks from rfl]
    by_cases hpast : e.PastFirst b
    · refine iff_of_false ?_ fun hnone => hnone.1 hpast
      have hends : (e.beginBlocker b).Started 2 := by
        rw [beginBlocker_of_started h.1 hpast.1, htime, if_pos hpast.2]
        exact ⟨h.1, by simp [endEpoch, h.2]⟩
      obtain ⟨n', hle, hafter, -⟩ := hends.calls blocks
      obtain ⟨k, rfl⟩ := Nat.exists_eq_add_of_le' hle
      have hnumber := hafter.2
      omega
    · have hsame : e.beginBlocker b = e := by
        by_cases hstart : e.startTime ≤ b.time
        · rw [beginBlocker_of_started h.1 hstart, htime, if_neg fun hlt => hpast ⟨hstart, hlt⟩]
        · simp [EpochInfo.beginBlocker, hstart]
      rw [hsame, ih]
      exact ⟨fun hrest => ⟨hpast, hrest⟩, fun hall => hall.2⟩

theorem currentEpoch_eq_one_iff (hnew : e.epochCountingStarted = false) (blocks : List Block) :
    ((e.after blocks).epochCountingStarted → (e.after blocks).currentEpoch = 1) ↔
      ∀ a b, [a, b] <+ blocks → e.startTime ≤ a.time → ¬ e.PastFirst b := by
  induction blocks with
  | nil =>
    refine iff_of_true (fun h => absurd (hnew.symm.trans h) Bool.false_ne_true) ?_
    rintro _ _ ⟨⟩
  | cons b blocks ih =>
    rw [show e.after (b :: blocks) = (e.beginBlocker b).after blocks from rfl]
    by_cases hstart : e.startTime ≤ b.time
    · have hfirst : e.beginBlocker b =
          startInitialEpoch { e with currentEpochStartHeight := b.height } :=
        if_pos ⟨hnew, hstart⟩
      have hone : (e.beginBlocker b).Started 1 := by
        rw [hfirst]
        exact ⟨rfl, rfl⟩
      obtain ⟨n', hle, hafter, -⟩ := hone.calls blocks
      obtain ⟨k, rfl⟩ := Nat.exists_eq_add_of_le' hle
      have hpast : ∀ b', (e.beginBlocker b).PastFirst b' ↔ e.PastFirst b' := by
        intro b'
        rw [hfirst]
        rfl
      rw [hone.currentEpoch_eq_one_iff (by rw [hfirst]; rfl)]
      simp only [hpast]
      constructor
      · intro hnone _ b' hsub _
        rw [cons_sublist_cons'] at hsub
        rcases hsub with hsub | ⟨-, hsub⟩
        · exact hnone hafter.1 b' (hsub.subset (by simp))
        · exact hnone hafter.1 b' (singleton_sublist.mp hsub)
      · intro hall _ b' hb'
        exact hall b b' (.cons_cons b (singleton_sublist.mpr hb')) hstart
    · have hsame : e.beginBlocker b = e := by simp [EpochInfo.beginBlocker, hstart]
      rw [hsame, ih]
      constructor
      · intro hnone a b' hsub ha
        rw [cons_sublist_cons'] at hsub
        rcases hsub with hsub | ⟨rfl, -⟩
        · exact hnone a b' hsub ha
        · exact absurd ha hstart
      · exact fun hall a b' hsub => hall a b' (hsub.cons b)

end EpochInfo

/-- The hooks of an entry that does not count yet alternate with the number of the epoch that ends
exactly as long as none ends: no block comes more than the duration after the start time, unless it
is the first one at or after the start time. -/
theorem hooks_alternate_iff (e : EpochInfo) (hnew : e.epochCountingStarted = false)
    (chain : List Block) : (∃ n, e.calls chain = EpochInfo.callLog (fun k => k) n) ↔
      ∀ a b, [a, b] <+ chain → e.startTime ≤ a.time →
        ¬ (e.startTime ≤ b.time ∧ e.startTime + e.duration < b.time) := by
  refine Iff.trans ?_ (EpochInfo.currentEpoch_eq_one_iff hnew chain)
  obtain ⟨n, -, hstarted, hcalls⟩ := EpochInfo.Started.calls (n := 0) hnew chain
  rw [EpochInfo.callLog, nil_append] at hcalls
  rw [hcalls]
  rcases n with _ | _ | n
  · have hnot : (e.after chain).epochCountingStarted = false := hstarted
    exact iff_of_true ⟨0, rfl⟩ fun h => absurd (hnot.symm.trans h) Bool.false_ne_true
  · exact iff_of_true ⟨1, rfl⟩ fun _ => hstarted.2
  refine iff_of_false ?_ fun h => ?_
  · rintro ⟨m, hm⟩
    rcases m with _ | _ | m
    · simp [EpochInfo.callLog] at hm
    · simpa [EpochInfo.callLog] using congrArg List.length hm
    have htail := (append_inj' hm rfl).2
    simp only [List.cons.injEq, Hook.afterEpochEnd.injEq, Hook.beforeEpochStart.injEq] at htail
    omega
  · have hnumber := hstarted.2.symm.trans (h hstarted.1)
    omega

/-- An entry of which a block at 105 starts the first epoch, which lasts until 110. -/
theorem hooks_alternate_at_start :
    ∃ n, (⟨"day", 100, 10, 0, 0, false, 0⟩ : EpochInfo).calls [⟨90, 1⟩, ⟨105, 2⟩, ⟨110, 3⟩] =
      EpochInfo.callLog (fun k => k) n := by
  refine (hooks_alternate_iff _ rfl _).mpr ?_
  intro _ b hsub _ hpast
  have hb := hsub.subset (mem_cons_of_mem _ mem_cons_self)
  simp only [mem_cons, not_mem_nil, or_false] at hb
  rcases hb with rfl | rfl | rfl
  · exact absurd hpast.1 (by decide)
  · exact absurd hpast.2 (by decide)
  · exact absurd hpast.2 (by decide)

/-- The first epoch ends, and the end of the second is announced. -/
theorem hooks_announce_next :
    (⟨"day", 100, 10, 0, 0, false, 0⟩ : EpochInfo).calls [⟨105, 1⟩, ⟨111, 2⟩] =
      [.beforeEpochStart 1, .afterEpochEnd 2, .beforeEpochStart 2] :=
  rfl

end HyperPax.Epochs
