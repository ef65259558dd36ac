/-
  Lib/Payments.lean --- lists of payments and what they come to.

  A payment takes an amount from an account and gives it to an account.  Either side
  may be missing: coins that are minted come from nowhere, coins that are burned go
  nowhere.  `net ps a` is what the payments `ps` bring to the account `a`, less what they
  take from it; it does not depend on the order of the payments, and it adds up along
  a sequence of operations.
-/
import Mathlib

set_option autoImplicit false

namespace HyperPax.Lib

/-- A payment; coins without a source are minted, those without a destination burned. -/
structure Payment (α : Type) where
  src : Option α
  dst : Option α
  amount : Nat
deriving DecidableEq

variable {α : Type} [DecidableEq α]

/-- What one payment brings to an account. -/
def Payment.net (p : Payment α) (a : α) : Int :=
  (if p.dst = some a then (p.amount : Int) else 0) - if p.src = some a then (p.amount : Int) else 0

/-- What a list of payments brings to an account. -/
def net (ps : List (Payment α)) (a : α) : Int :=
  (ps.map fun p => p.net a).sum

/-- The account receives one of the payments. -/
def Receives (ps : List (Payment α)) (a : α) : Prop :=
  ∃ p ∈ ps, p.dst = some a

instance (ps : List (Payment α)) (a : α) : Decidable (Receives ps a) :=
  inferInstanceAs (Decidable (∃ p ∈ ps, p.dst = some a))

@[simp] theorem net_nil (a : α) : net [] a = 0 := rfl

@[simp] theorem net_cons (p : Payment α) (ps : List (Payment α)) (a : α) :
    net (p :: ps) a = p.net a + net ps a := by
  simp [net]

@[simp] theorem net_append (ps qs : List (Payment α)) (a : α) :
    net (ps ++ qs) a = net ps a + net qs a := by
  simp [net]

omit [DecidableEq α] in
@[simp] theorem not_receives_nil (a : α) : ¬ Receives [] a := by simp [Receives]

omit [DecidableEq α] in
theorem receives_append {ps qs : List (Payment α)} {a : α} :
    Receives (ps ++ qs) a ↔ Receives ps a ∨ Receives qs a := by
  simp only [Receives, List.mem_append, or_and_right, exists_or]

omit [DecidableEq α] in
theorem receives_singleton {p : Payment α} {a : α} : Receives [p] a ↔ p.dst = some a := by
  simp [Receives]

end HyperPax.Lib
