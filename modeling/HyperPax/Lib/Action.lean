/-
  Lib/Action.lean --- fallible operations that do not undo their writes.

  A keeper method of the chain is a function that reads and writes the stores of
  the current context and returns a value or an error.  Returning an error does
  NOT restore the stores: what was written before the error stays written until
  some caller discards the context.  `Action` models exactly that:

      Action σ ε α  =  σ → List σ × σ × Except ε α

  so that `bind` hands the written state on to the next operation, and an error
  stops the sequence with the state as it then is.  The state is a component of
  both outcomes, which is what separates this monad from `StateT σ (Except ε)`,
  where an error forgets the state.  The list is the log of the writes: the state
  after each of them.  An operation that runs out of gas stops at one of these
  (`metered`); all else is said of the run that is not cut short.

  Each operation comes with the equation of its run, alone and at the head of a
  sequence; an operation that leaves no trace when it fails is `AtomicAt`, with one
  rule for each way of building operations.
-/
import Mathlib

set_option autoImplicit false

namespace HyperPax.Lib

/-- A fallible operation over a state `σ`: it returns the state after each of its writes, and
the state it leaves behind together with a value or an error. -/
def Action (σ ε α : Type) : Type := σ → List σ × σ × Except ε α

namespace Action

variable {σ ε α β τ δ : Type} {s s' : σ} {a : α} {t : τ} {x : Action σ ε α} {f : α → Action σ ε β}
  {e : ε} {b : β} {c : Prop} {get : σ → τ} {set : σ → τ → σ}

/-- Run an operation. -/
def run (x : Action σ ε α) (s : σ) : σ × Except ε α := (x s).2

/-- The state after each write of a run. -/
def writes (x : Action σ ε α) (s : σ) : List σ := (x s).1

/-- Return a value and leave the state alone. -/
protected def pure (a : α) : Action σ ε α := fun s => ([], s, .ok a)

/-- Sequence two operations; an error of the first skips the second and keeps
the state the first left behind. -/
protected def bind (x : Action σ ε α) (f : α → Action σ ε β) : Action σ ε β := fun s =>
  (x.writes s ++ match x.run s with
    | (s', .ok a) => (f a).writes s'
    | (_, .error _) => [],
  match x.run s with
    | (s', .ok a) => (f a).run s'
    | (s', .error e) => (s', .error e))

instance : Monad (Action σ ε) where
  pure := .pure
  bind := .bind

/-- Fail with `e`. -/
def fail (e : ε) : Action σ ε α := fun s => ([], s, .error e)

/-- Read a part of the state. -/
def gets (f : σ → α) : Action σ ε α := fun s => ([], s, .ok (f s))

/-- Write the state. -/
def modify (f : σ → σ) : Action σ ε Unit := fun s => ([f s], f s, .ok ())

/-- Fail with `e` when `c` holds: an early `return err`. -/
def rejectIf (c : Prop) [Decidable c] (e : ε) : Action σ ε Unit :=
  if c then fail e else pure ()

/-- The value of an optional, or the error `e`. -/
def orFail (o : Option α) (e : ε) : Action σ ε α :=
  match o with
  | some a => pure a
  | none => fail e

/-- Run an operation on a part of the state, and rename its errors. -/
def zoom {τ δ : Type} (get : σ → τ) (set : σ → τ → σ) (wrap : δ → ε) (x : Action τ δ α) :
    Action σ ε α := fun s =>
  ((x.writes (get s)).map (set s),
  match x.run (get s) with
    | (t, .ok a) => (set s t, .ok a)
    | (t, .error e) => (set s t, .error (wrap e)))

/-- The state after the first `n` writes. -/
def after (x : Action σ ε α) (n : Nat) (s : σ) : σ := (s :: x.writes s).getD n s

/-- Run an operation with gas for `gas` writes.  The gas for a write is taken before the write is
made, so that the ones made until then stay. -/
def metered (gas : Nat) (outOfGas : ε) (x : Action σ ε α) : Action σ ε α := fun s =>
  if gas < (x.writes s).length then ((x.writes s).take gas, x.after gas s, .error outOfGas)
  else x s

/-! ## Running -/

@[simp] theorem run_pure (a : α) (s : σ) : (pure a : Action σ ε α).run s = (s, .ok a) := rfl

@[simp] theorem run_modify (f : σ → σ) (s : σ) :
    (modify f : Action σ ε Unit).run s = (f s, .ok ()) := rfl

theorem run_zoom_of_ok (get : σ → τ) (set : σ → τ → σ) (wrap : δ → ε) {x : Action τ δ α}
    (h : x.run (get s) = (t, .ok a)) : (zoom get set wrap x).run s = (set s t, .ok a) := by
  simp only [run, zoom] at h ⊢
  rw [h]

theorem run_zoom_of_error (get : σ → τ) (set : σ → τ → σ) (wrap : δ → ε) {x : Action τ δ α}
    {e : δ} (h : x.run (get s) = (t, .error e)) :
    (zoom get set wrap x).run s = (set s t, .error (wrap e)) := by
  simp only [run, zoom] at h ⊢
  rw [h]

theorem run_bind (x : Action σ ε α) (f : α → Action σ ε β) (s : σ) : (x >>= f).run s =
      match x.run s with
      | (s', .ok a) => (f a).run s'
      | (s', .error e) => (s', .error e) := rfl

theorem run_bind_of_ok (h : x.run s = (s', .ok a)) : (x >>= f).run s = (f a).run s' := by
  rw [run_bind, h]

theorem run_bind_of_error (h : x.run s = (s', .error e)) : (x >>= f).run s = (s', .error e) := by
  rw [run_bind, h]

@[simp] theorem run_pure_bind (a : α) (f : α → Action σ ε β) (s : σ) :
    ((pure a : Action σ ε α) >>= f).run s = (f a).run s := by
  rw [run_bind]
  rfl

@[simp] theorem run_gets_bind (g : σ → α) (f : α → Action σ ε β) (s : σ) :
    ((gets g : Action σ ε α) >>= f).run s = (f (g s)).run s := by
  rw [run_bind]
  rfl

@[simp] theorem run_modify_bind (g : σ → σ) (f : Unit → Action σ ε β) (s : σ) :
    ((modify g : Action σ ε Unit) >>= f).run s = (f ()).run (g s) := by
  rw [run_bind]
  rfl

theorem run_rejectIf (c : Prop) [Decidable c] (e : ε) (s : σ) :
    (rejectIf c e : Action σ ε Unit).run s = if c then (s, .error e) else (s, .ok ()) := by
  unfold rejectIf
  split <;> rfl

@[simp] theorem run_rejectIf_bind (c : Prop) [Decidable c] (e : ε)
    (f : Unit → Action σ ε β) (s : σ) : ((rejectIf c e : Action σ ε Unit) >>= f).run s =
      if c then (s, .error e) else (f ()).run s := by
  rw [run_bind, run_rejectIf]
  by_cases hc : c <;> simp [hc]

@[simp] theorem run_orFail_bind (o : Option α) (e : ε) (f : α → Action σ ε β) (s : σ) :
    ((orFail o e : Action σ ε α) >>= f).run s =
      match o with
      | some a => (f a).run s
      | none => (s, .error e) := by
  cases o <;> rfl

theorem run_bind_pure_fst (x : Action σ ε α) (f : α → β) (s : σ) :
    ((x >>= fun a => pure (f a)).run s).1 = (x.run s).1 := by
  rcases hx : x.run s with ⟨_, _ | _⟩
  · rw [run_bind_of_error hx]
  · rw [run_bind_of_ok hx]
    rfl

/-! ## Success

What the run of a sequence that succeeds was made of. -/

theorem run_bind_ok : (x >>= f).run s = (s', .ok b) ↔
      ∃ t a, x.run s = (t, .ok a) ∧ (f a).run t = (s', .ok b) := by
  rw [run_bind]
  rcases x.run s with ⟨t, e | a⟩ <;> simp

theorem rejectIf_bind_ok [Decidable c] {f : Unit → Action σ ε β} :
    (rejectIf c e >>= f).run s = (s', .ok b) ↔ ¬ c ∧ (f ()).run s = (s', .ok b) := by
  rw [run_rejectIf_bind]
  by_cases hc : c <;> simp [hc]

theorem run_rejectIf_ok [Decidable c] :
    (rejectIf c e : Action σ ε Unit).run s = (s', .ok ()) ↔ ¬ c ∧ s' = s := by
  rw [run_rejectIf]
  by_cases hc : c <;> simp [hc, eq_comm]

theorem run_orFail_bind_ok {o : Option α} :
    (orFail o e >>= f).run s = (s', .ok b) ↔ ∃ a, o = some a ∧ (f a).run s = (s', .ok b) := by
  rw [run_orFail_bind]
  cases o <;> simp

theorem run_zoom_ok {wrap : δ → ε} {x : Action τ δ α} :
    (zoom get set wrap x).run s = (s', .ok a) ↔ ∃ t, x.run (get s) = (t, .ok a) ∧ s' = set s t := by
  rcases hx : x.run (get s) with ⟨_, _ | _⟩
  · rw [run_zoom_of_error get set wrap hx]
    simp
  · rw [run_zoom_of_ok get set wrap hx]
    simp [eq_comm, and_comm]

/-! ## What every run keeps -/

/-- Whatever the outcome, the state left behind stands in the relation to the state before. -/
def Keeps (R : σ → σ → Prop) (x : Action σ ε α) : Prop := ∀ s, R s (x.run s).1

namespace Keeps

variable {R : σ → σ → Prop}

theorem bind (htrans : ∀ s t u, R s t → R t u → R s u) (hx : Keeps R x) (hf : ∀ a, Keeps R (f a)) :
    Keeps R (x >>= f) := by
  intro s
  have hfirst := hx s
  rcases hrun : x.run s with ⟨t, _ | a⟩
  · rw [hrun] at hfirst
    rw [run_bind_of_error hrun]
    exact hfirst
  · rw [hrun] at hfirst
    rw [run_bind_of_ok hrun]
    exact htrans s t _ hfirst (hf a t)

theorem pure (hrefl : ∀ s, R s s) (a : α) : Keeps R (.pure a : Action σ ε α) := hrefl

theorem gets (hrefl : ∀ s, R s s) (f : σ → α) : Keeps R (.gets f : Action σ ε α) := hrefl

theorem modify {f : σ → σ} (h : ∀ s, R s (f s)) : Keeps R (.modify f : Action σ ε Unit) := h

theorem rejectIf (hrefl : ∀ s, R s s) (c : Prop) [Decidable c] (e : ε) :
    Keeps R (.rejectIf c e) := by
  intro s
  rw [run_rejectIf]
  split <;> exact hrefl s

theorem zoom {Q : τ → τ → Prop} (wrap : δ → ε) (hset : ∀ s t, Q (get s) t → R s (set s t))
    {x : Action τ δ α} (hx : Keeps Q x) : Keeps R (.zoom get set wrap x) := by
  intro s
  have hpart := hset s _ (hx (get s))
  rcases hrun : x.run (get s) with ⟨_, _ | _⟩
  · rw [hrun] at hpart
    rw [run_zoom_of_error get set wrap hrun]
    exact hpart
  · rw [hrun] at hpart
    rw [run_zoom_of_ok get set wrap hrun]
    exact hpart

end Keeps

/-! ## Failure without a trace -/

/-- When `x` fails from `s`, the state is still `s`. -/
def AtomicAt (x : Action σ ε α) (s : σ) : Prop :=
  ∀ s' e, x.run s = (s', .error e) → s' = s

theorem atomicAt_of_error (h : x.run s = (s, .error e)) : AtomicAt x s := by
  intro _ _ h'
  rw [h, Prod.mk.injEq] at h'
  exact h'.1.symm

theorem atomicAt_of_ok (h : x.run s = (s', .ok a)) : AtomicAt x s := by
  intro _ _ h'
  rw [h, Prod.mk.injEq] at h'
  cases h'.2

theorem atomicAt_rejectIf_bind (c : Prop) [Decidable c] (e : ε) (f : Unit → Action σ ε β) (s : σ) :
    AtomicAt (rejectIf c e >>= f) s ↔ (¬ c → AtomicAt (f ()) s) := by
  by_cases hc : c
  · have hrun : (rejectIf c e >>= f).run s = (s, .error e) := by rw [run_rejectIf_bind, if_pos hc]
    exact ⟨fun _ h => absurd hc h, fun _ => atomicAt_of_error hrun⟩
  have hrun : (rejectIf c e >>= f).run s = (f ()).run s := by rw [run_rejectIf_bind, if_neg hc]
  unfold AtomicAt
  rw [hrun]
  exact ⟨fun h _ => h, fun h => h hc⟩

theorem atomicAt_orFail_bind (o : Option α) (e : ε) (f : α → Action σ ε β) (s : σ) :
    AtomicAt (orFail o e >>= f) s ↔ ∀ a, o = some a → AtomicAt (f a) s := by
  cases o with
  | none =>
    have hrun : (orFail none e >>= f).run s = (s, .error e) := by rw [run_orFail_bind]
    refine ⟨?_, fun _ => atomicAt_of_error hrun⟩
    intro _ a ha
    cases ha
  | some a =>
    unfold AtomicAt
    rw [run_orFail_bind]
    constructor
    · intro h _ hb
      cases hb
      exact h
    · intro h
      exact h a rfl

theorem atomicAt_bind_pure (x : Action σ ε α) (f : α → β) (s : σ) :
    AtomicAt (x >>= fun a => pure (f a)) s ↔ AtomicAt x s := by
  rcases hx : x.run s with ⟨_, _ | _⟩
  · unfold AtomicAt
    rw [run_bind_of_error hx, hx]
    simp
  · exact ⟨fun _ => atomicAt_of_ok hx, fun _ => atomicAt_of_ok (run_bind_of_ok hx)⟩

theorem atomicAt_zoom (hset : set s (get s) = s) (hget : ∀ t, get (set s t) = t) (wrap : δ → ε)
    (x : Action τ δ α) : AtomicAt (zoom get set wrap x) s ↔ AtomicAt x (get s) := by
  rcases hx : x.run (get s) with ⟨t, _ | _⟩
  · have hrun := run_zoom_of_error get set wrap hx
    constructor
    · intro h _ _ ht'
      have hsame := h _ _ hrun
      rw [hx, Prod.mk.injEq] at ht'
      rw [← ht'.1, ← hget t, hsame]
    intro h
    have hsame := h _ _ hx
    rw [hsame, hset] at hrun
    exact atomicAt_of_error hrun
  · exact ⟨fun _ => atomicAt_of_ok hx, fun _ => atomicAt_of_ok (run_zoom_of_ok get set wrap hx)⟩

theorem atomicAt_metered (gas : Nat) (e : ε) (x : Action σ ε α) (s : σ) :
    AtomicAt (x.metered gas e) s ↔
      if gas < (x.writes s).length then x.after gas s = s else AtomicAt x s := by
  unfold AtomicAt run metered
  split
  · refine ⟨fun h => h _ e rfl, ?_⟩
    rintro h _ _ ⟨⟩
    exact h
  · rfl

end Action

end HyperPax.Lib
