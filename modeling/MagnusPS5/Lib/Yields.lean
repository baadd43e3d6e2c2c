/-
Rules for computations that can fail.

`Yields E x P` says of a computation `x` that it returns a value with the property `P`,
or fails with an error of the kind `E`. The rules follow the shape of the program: one
for `pure`, one for a sequence, one for a conditional, one for a loop over a list with
an invariant.
-/
import Mathlib.Tactic.Common

namespace MagnusPS5.Lib

universe u v

variable {ε : Type u} {α β σ : Type v} {E : ε → Prop}

/-- `x` returns a value with `P`, or fails with an error of the kind `E`. -/
def Yields (E : ε → Prop) (x : Except ε α) (P : α → Prop) : Prop :=
  match x with
  | .ok a => P a
  | .error e => E e

variable {P : α → Prop} {x : Except ε α}

theorem yields_pure {a : α} (h : P a) : Yields E (pure a) P := h

theorem yields_ok {a : α} (h : P a) : Yields E (.ok a) P := h

theorem yields_error {e : ε} (h : E e) : Yields E (.error e) P := h

section

variable (h : Yields E x P)

include h

theorem Yields.of_ok {a : α} (heq : x = .ok a) : P a := by
  subst heq
  exact h

theorem Yields.of_error {e : ε} (heq : x = .error e) : E e := by
  subst heq
  exact h

theorem Yields.mono {Q : α → Prop} (hpq : ∀ a, P a → Q a) : Yields E x Q := by
  cases x with
  | ok a => exact hpq a h
  | error e => exact h

theorem Yields.and {Q : α → Prop}
    (hq : ∀ {a}, x = .ok a → Q a) : Yields E x fun a => P a ∧ Q a := by
  cases x with
  | ok a => exact ⟨h, hq rfl⟩
  | error e => exact h

theorem Yields.mono_error {E' : ε → Prop} (he : ∀ e, E e → E' e) : Yields E' x P := by
  cases x with
  | ok a => exact h
  | error e => exact he e h

end

/-- **Sequence.** -/
theorem Yields.bind {f : α → Except ε β} {Q : β → Prop}
    (hx : Yields E x P) (hf : ∀ a, P a → Yields E (f a) Q) : Yields E (x >>= f) Q := by
  cases x with
  | ok a => exact hf a hx
  | error e => exact hx

theorem yields_map {f : α → β} {P : β → Prop}
    (h : Yields E x fun a => P (f a)) : Yields E (x.map f) P := by
  cases x with
  | ok | error => exact h

/-- **Conditional.** -/
theorem yields_ite {c : Prop} [Decidable c] {y : Except ε α}
    (hx : c → Yields E x P) (hy : ¬ c → Yields E y P) : Yields E (if c then x else y) P := by
  split
  · exact hx ‹_›
  · exact hy ‹_›

/-- **Loop over a list**, with an invariant that may speak of the items that are left. -/
theorem yields_foldlM {f : σ → α → Except ε σ} {Inv : List α → σ → Prop} {l : List α} {s : σ}
    (h : Inv l s) (hstep : ∀ a rest s, Inv (a :: rest) s → Yields E (f s a) (Inv rest)) :
    Yields E (l.foldlM f s) (Inv []) := by
  induction l generalizing s with
  | nil => exact h
  | cons a l ih =>
    rw [List.foldlM_cons]
    exact (hstep a l s h).bind fun s' hs' => ih hs'

end MagnusPS5.Lib
