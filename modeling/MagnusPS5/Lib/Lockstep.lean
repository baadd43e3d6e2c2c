/-
Two machines that run in lockstep.

A machine takes one step at each input, which gives an output and the next state, or stops.
If a relation of the states of two machines holds at the start, and one step either stops
both or gives the same output and states that are related again, then the machines have
the same outputs for every sequence of inputs.
-/
import Mathlib.Tactic.Common

namespace MagnusPS5.Lib

/-- A machine with inputs and outputs. -/
structure Machine (σ ι ο : Type*) where
  step : σ → ι → Option (ο × σ)

namespace Machine

variable {σ τ ι ο : Type*}

/-- The outputs for a sequence of inputs, as far as the machine runs. -/
def trace (M : Machine σ ι ο) : List ι → σ → List ο
  | [], _ => []
  | x :: xs, s =>
    match M.step s x with
    | none => []
    | some (o, s') => o :: M.trace xs s'

/-- One step of both machines stops them, or has the same output and keeps the relation. -/
def Lockstep (M : Machine σ ι ο) (N : Machine τ ι ο) (R : σ → τ → Prop) : Prop :=
  ∀ s t x, R s t → (M.step s x = none ∧ N.step t x = none) ∨
    ∃ o s' t', M.step s x = some (o, s') ∧ N.step t x = some (o, t') ∧ R s' t'

/-- **Machines in lockstep have the same outputs.** -/
theorem Lockstep.trace_eq {M : Machine σ ι ο} {N : Machine τ ι ο} {R : σ → τ → Prop}
    (h : M.Lockstep N R) (xs : List ι) {s : σ} {t : τ} (hst : R s t) :
    M.trace xs s = N.trace xs t := by
  induction xs generalizing s t with
  | nil => rfl
  | cons x xs ih =>
    unfold trace
    rcases h s t x hst with ⟨hs, ht⟩ | ⟨o, s', t', hs, ht, hst'⟩
    · rw [hs, ht]
    · rw [hs, ht]
      exact congrArg (o :: ·) (ih hst')

end Machine

end MagnusPS5.Lib
