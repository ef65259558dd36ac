/-
  Streams/Rates.lean --- what accrues after a change of the rate.

  `UpdateRate` pays out at the old rate, writes the new rate and sets the start time to the time of
  the call.  It leaves the settled amount as a total since the opening of the stream, and
  `streamAccrued` takes that total off what the new rate has earned since the call.  So the payee
  earns again what was paid before anything accrues; and a start time in the future is
  moved forward to the call.
-/
import HyperPax.Streams.Timing

set_option autoImplicit false

namespace HyperPax.Streams

open Lib

/-- What should have accrued at `t`: the new rate from the call or the agreed start on, until the
stop time, at most what is left of the cap. -/
def promised (stream : Stream) (settled : Int) (now : UInt64) (newRate : Int) (t : UInt64) : Int :=
  let until_ : Nat := if stream.stopTime = 0 then t.toNat else min t.toNat stream.stopTime.toNat
  min (newRate * ((until_ - max now.toNat stream.startTime.toNat : Nat) : Int))
    (parseAmount stream.cap - settled)

/-- The last second that can earn anything. -/
def lastSecond (stream : Stream) : Nat :=
  if stream.stopTime = 0 then 2 ^ 64 - 1 else stream.stopTime.toNat

theorem accrual_iff {r S C : Int} {d X : Nat} (hr : 0 < r) :
    (∀ x : Nat, x ≤ X → max 0 (min (r * (x : Int)) C - S) =
        min (r * ((x - d : Nat) : Int)) (C - S)) ↔
      S ≤ C ∧ (S = C ∨ S = r * (d : Int) ∨ (X ≤ d ∧ r * (X : Int) ≤ S) ∨
        (r * (d : Int) < S ∧ C ≤ r * ((d + 1 : Nat) : Int))) := by
  have hmono : ∀ a b : Nat, a ≤ b → r * (a : Int) ≤ r * (b : Int) := fun a b h =>
    mul_le_mul_of_nonneg_left (Int.ofNat_le.mpr h) hr.le
  have hsub : ∀ x : Nat, d ≤ x → r * ((x - d : Nat) : Int) = r * (x : Int) - r * (d : Int) := by
    intro x hx
    rw [Nat.cast_sub hx, mul_sub]
  have hbefore : ∀ x : Nat, x ≤ d → r * ((x - d : Nat) : Int) = 0 := by
    intro x hx
    rw [Nat.sub_eq_zero_of_le hx, Nat.cast_zero, mul_zero]
  have hsucc : r * ((d + 1 : Nat) : Int) = r * (d : Int) + r := by
    push_cast
    ring
  constructor
  · intro hall
    have hzero := hall 0 (Nat.zero_le _)
    rw [hbefore 0 (Nat.zero_le _), Nat.cast_zero, mul_zero] at hzero
    refine ⟨by omega, ?_⟩
    rcases lt_trichotomy S (r * (d : Int)) with hlt | heq | _
    · by_cases hd : d ≤ X
      · have hat := hall d hd
        rw [hbefore d le_rfl] at hat
        omega
      · have hat := hall X le_rfl
        rw [hbefore X (by omega)] at hat
        omega
    · exact .inr (.inl heq)
    · by_cases hd : X ≤ d
      · have hle := hmono X d hd
        omega
      have hat := hall (d + 1) (by omega)
      rw [hsub (d + 1) (by omega), hsucc] at hat
      rw [hsucc]
      omega
  · rintro ⟨_, _⟩ x hx
    rcases le_total x d with hxd | hdx
    · have hrx := hmono x d hxd
      have hrX := hmono x X hx
      rw [hbefore x hxd]
      omega
    have hrx := hmono d x hdx
    have hrX := hmono x X hx
    rcases eq_or_lt_of_le hdx with rfl | hlt
    · rw [hbefore d le_rfl]
      omega
    have hnext := hmono (d + 1) x hlt
    rw [hsub x hdx]
    omega

section

variable {k : Keeper} {env : Env} {now : UInt64} {s s' : State} {streamID : UInt64}
  {caller : List UInt8} {newRate payout : Int} {stream : Stream}

/-- The record `UpdateRate` leaves. -/
def Stream.withRate (stream : Stream) (payout newRate : Int) (now : UInt64) : Stream :=
  { stream.addSettled payout with ratePerSecond := formatInt newRate, startTime := now }

theorem updateRate_ok (hget : getStream s.store streamID = some stream)
    (hrun : (updateRate k env now streamID caller newRate).run s = (s', .ok payout)) :
    0 < newRate ∧ payout = streamAccrued stream now ∧
      getStream s'.store stream.id = some (stream.withRate payout newRate now) := by
  rcases updateRate_cases k env now s streamID caller newRate with
    ⟨_, he⟩ | ⟨_, _, hget', -, hrate, -, hok⟩
  · rw [hrun] at he
    cases he
  rw [hget] at hget'
  cases hget'
  rw [hrun] at hok
  cases hok
  refine ⟨hrate, rfl, ?_⟩
  rw [State.withStore_store, getStream_setStream]
  exact if_pos (addSettled_id stream)

theorem streamAccrued_withRate (hpayout : 0 ≤ payout) (hrate : 0 < newRate) (t : UInt64) :
    streamAccrued (stream.withRate payout newRate now) t =
      max 0 (min (newRate * (((if stream.stopTime = 0 then t.toNat
          else min t.toNat stream.stopTime.toNat) - now.toNat : Nat) : Int))
        (parseAmount stream.cap) - (parseAmount stream.settled + payout)) := by
  have hstop : (stream.addSettled payout).stopTime = stream.stopTime := by
    unfold Stream.addSettled
    split <;> rfl
  rw [streamAccrued_eq, ← addSettled_settled stream hpayout]
  unfold entitled Stream.withRate
  rw [parseAmount_formatInt hrate.le, hstop, addSettled_cap]

end

/-- After a change of the rate everything accrues as promised, exactly if nothing is left to
accrue, or what was paid is what the new rate would earn from the call to the agreed start, or
the stream ends before more than that is earned, or one second at the new rate exhausts the
cap. -/
theorem updateRate_accrues_iff (k : Keeper) (env : Env) (now : UInt64) (s s' : State)
    (streamID : UInt64) (caller : List UInt8) (newRate payout : Int) (stream : Stream)
    (hget : getStream s.store streamID = some stream)
    (hrun : (updateRate k env now streamID caller newRate).run s = (s', .ok payout)) :
    ∃ updated, getStream s'.store stream.id = some updated ∧
      payout = streamAccrued stream now ∧
      parseAmount updated.settled = parseAmount stream.settled + payout ∧
      ((∀ t, now ≤ t → streamAccrued updated t =
          promised stream (parseAmount stream.settled + streamAccrued stream now) now newRate t) ↔
        parseAmount stream.settled + streamAccrued stream now ≤ parseAmount stream.cap ∧
          (parseAmount stream.settled + streamAccrued stream now = parseAmount stream.cap ∨
            parseAmount stream.settled + streamAccrued stream now =
              newRate * ((stream.startTime.toNat - now.toNat : Nat) : Int) ∨
            (lastSecond stream - now.toNat ≤ stream.startTime.toNat - now.toNat ∧
              newRate * ((lastSecond stream - now.toNat : Nat) : Int) ≤
                parseAmount stream.settled + streamAccrued stream now) ∨
            (newRate * ((stream.startTime.toNat - now.toNat : Nat) : Int) <
                parseAmount stream.settled + streamAccrued stream now ∧ parseAmount stream.cap ≤
                newRate * ((stream.startTime.toNat - now.toNat + 1 : Nat) : Int)))) := by
  obtain ⟨hrate, hpayout, hstored⟩ := updateRate_ok hget hrun
  have hpaid : 0 ≤ payout := hpayout ▸ streamAccrued_nonneg stream now
  have hsettled := parseAmount_nonneg stream.settled
  refine ⟨_, hstored, hpayout, addSettled_settled stream hpaid, ?_⟩
  rw [← hpayout, ← accrual_iff hrate]
  constructor
  · intro hall x hx
    -- the second that lies `x` after the call
    have hlast : lastSecond stream ≤ 2 ^ 64 - 1 := by
      unfold lastSecond
      have hbound := stream.stopTime.toNat_lt
      split <;> omega
    by_cases hx0 : x = 0
    · subst hx0
      have hcap := hall now UInt64.le_rfl
      rw [streamAccrued_withRate hpaid hrate] at hcap
      unfold promised at hcap
      dsimp only at hcap
      have hle : (if stream.stopTime = 0 then now.toNat
          else min now.toNat stream.stopTime.toNat) ≤ now.toNat := by
        split <;> omega
      have hmax : now.toNat ≤ max now.toNat stream.startTime.toNat := le_max_left _ _
      rw [Nat.sub_eq_zero_of_le hle, Nat.sub_eq_zero_of_le (hle.trans hmax)] at hcap
      rw [Nat.zero_sub]
      exact hcap
    · have ht : (UInt64.ofNat (now.toNat + x)).toNat = now.toNat + x :=
        UInt64.toNat_ofNat_of_lt' (show now.toNat + x < 2 ^ 64 by omega)
      have hat := hall (.ofNat (now.toNat + x))
        (UInt64.le_iff_toNat_le.mpr (by rw [ht]; omega))
      rw [streamAccrued_withRate hpaid hrate] at hat
      unfold promised at hat
      have huntil : (if stream.stopTime = 0 then now.toNat + x
          else min (now.toNat + x) stream.stopTime.toNat) = now.toNat + x := by
        unfold lastSecond at hx
        split_ifs at hx ⊢ <;> omega
      dsimp only at hat
      rw [ht, huntil, Nat.add_sub_cancel_left] at hat
      have hafter : now.toNat + x - max now.toNat stream.startTime.toNat =
          x - (stream.startTime.toNat - now.toNat) := by omega
      rw [hafter] at hat
      exact hat
  · intro hall t _
    rw [streamAccrued_withRate hpaid hrate]
    unfold promised
    dsimp only
    have hbound := t.toNat_lt
    have hx : (if stream.stopTime = 0 then t.toNat else min t.toNat stream.stopTime.toNat) -
        now.toNat ≤ lastSecond stream - now.toNat := by
      unfold lastSecond
      split <;> omega
    have hafter : (if stream.stopTime = 0 then t.toNat else min t.toNat stream.stopTime.toNat) -
        max now.toNat stream.startTime.toNat =
          (if stream.stopTime = 0 then t.toNat else min t.toNat stream.stopTime.toNat) -
            now.toNat - (stream.startTime.toNat - now.toNat) := by omega
    rw [hafter]
    exact hall _ hx

open TwoSettlements in
/-- At 1050 the payee is paid 150 and the rate is raised from 3 to 5.  Ten seconds later nothing has
accrued, where 50 should have. -/
theorem raised_rate_withholds :
    ∃ s' updated, (updateRate keeper env 1050 1 payer.bytes 5).run state = (s', .ok 150) ∧
      getStream s'.store 1 = some updated ∧ streamAccrued updated 1060 = 0 ∧
      promised stream (parseAmount stream.settled + 150) 1050 5 1060 = 50 :=
  ⟨_, stream.withRate 150 5 1050, Prod.ext rfl (by decide +kernel), by decide +kernel,
    by decide +kernel, by decide +kernel⟩

open TwoSettlements in
/-- A rate that is changed at the start of the stream is paid as promised. -/
theorem rate_changed_at_start :
    ∃ s' updated, (updateRate keeper env 1000 1 payer.bytes 5).run state = (s', .ok 0) ∧
      getStream s'.store stream.id = some updated ∧ ∀ t, 1000 ≤ t → streamAccrued updated t =
        promised stream (parseAmount stream.settled + streamAccrued stream 1000) 1000 5 t := by
  have hrun : (updateRate keeper env 1000 1 payer.bytes 5).run state =
      (((updateRate keeper env 1000 1 payer.bytes 5).run state).1, .ok 0) :=
    Prod.ext rfl (by decide +kernel)
  obtain ⟨updated, hget, -, -, hiff⟩ := updateRate_accrues_iff keeper env 1000 state _ 1
    payer.bytes 5 0 stream (by decide +kernel) hrun
  exact ⟨_, updated, hrun, hget, hiff.mpr (by decide +kernel)⟩

end HyperPax.Streams
