/-
  Lib/Allocator.lean --- a persisted 64-bit id counter.

  The counter is stored as a word; an absent or zero counter counts as one.  An
  allocation hands out the counter and persists its successor, which after `2^64 - 1`
  wraps around to zero.  As long as the counter has not wrapped, it is above every id
  handed out: `IdsBelow` is that invariant with its two rules.
-/
import HyperPax.Base.Address

set_option autoImplicit false

namespace HyperPax.Lib

/-- The id an allocation hands out, from the stored counter. -/
def nextId : Option UInt64 → UInt64
  | some n => if n = 0 then 1 else n
  | none => 1

/-- Unless the counter has wrapped around, it is above every used id. -/
def IdsBelow (counter : Option UInt64) (used : UInt64 → Prop) : Prop :=
  counter = some 0 ∨ ∀ id, used id → id < nextId counter

namespace IdsBelow

variable {counter : Option UInt64} {used used' : UInt64 → Prop}

theorem mono (h : IdsBelow counter used) (hsub : ∀ id, used' id → used id) :
    IdsBelow counter used' := by
  rcases h with hwrapped | hbelow
  · exact .inl hwrapped
  · exact .inr fun id hid => hbelow id (hsub id hid)

theorem allocate (hbelow : ∀ id, used id → id < nextId counter)
    (hsub : ∀ id, used' id → used id ∨ id = nextId counter) :
    IdsBelow (some (nextId counter + 1)) used' := by
  by_cases hwrap : nextId counter + 1 = 0
  · exact .inl (congrArg some hwrap)
  have hsucc := lt_add_one_of_ne_zero hwrap
  have hnext : nextId (some (nextId counter + 1)) = nextId counter + 1 := if_neg hwrap
  refine .inr ?_
  intro id hid
  rw [hnext]
  rcases hsub id hid with hid | rfl
  · exact UInt64.lt_trans (hbelow id hid) hsucc
  · exact hsucc

end IdsBelow

end HyperPax.Lib
