/-
Loops whose steps can fail.

A validation runs checks one after the other and stops at the first that fails. When it
succeeds all of them hold, and where a loop builds a list its entries are what the steps
have made.
-/
import Mathlib.Tactic.Common

namespace MagnusPS5.Lib

variable {ε α β : Type}

/-- Fails with `e` unless the condition holds. -/
def check (c : Prop) [Decidable c] (e : ε) : Except ε Unit := if c then .ok () else .error e

/-- A loop of checks, with the index of each entry. -/
def forEach (f : ℕ → α → Except ε Unit) : ℕ → List α → Except ε Unit
  | _, [] => .ok ()
  | i, a :: l => do
      f i a
      forEach f (i + 1) l

/-- A loop that rewrites the entries of a list, with the index of each. -/
def mapEach (f : ℕ → α → Except ε β) : ℕ → List α → Except ε (List β)
  | _, [] => .ok []
  | i, a :: l => do
      let b ← f i a
      let rest ← mapEach f (i + 1) l
      .ok (b :: rest)

variable {x : Except ε α} {f : α → Except ε β} {b : β} {e : ε} {c : Prop} {P : α → Prop}

theorem bind_eq_ok : (x >>= f) = .ok b ↔ ∃ a, x = .ok a ∧ f a = .ok b := by
  cases x with
  | ok | error => simp [Bind.bind, Except.bind]

theorem bind_eq_error : (x >>= f) = .error e ↔ x = .error e ∨ ∃ a, x = .ok a ∧ f a = .error e := by
  cases x with
  | ok | error => simp [Bind.bind, Except.bind]

theorem snd_of_map {x : Except ε (α × β)} (h : x.map Prod.snd = .ok b) : ∃ a, x = .ok (a, b) := by
  cases x with
  | error e => exact absurd h (by simp [Except.map])
  | ok r => exact ⟨r.1, by rw [← Except.ok.inj h]⟩

theorem check_eq_ok [Decidable c] {u : Unit} : check c e = .ok u ↔ c := by
  unfold check
  split <;> simp_all

theorem check_eq_error [Decidable c] {e' : ε} :
    check c e = (.error e' : Except ε Unit) ↔ ¬ c ∧ e = e' := by
  unfold check
  split <;> simp_all

theorem forEach_eq_ok {f : ℕ → α → Except ε Unit}
    (hf : ∀ i a u, f i a = .ok u ↔ P a) (i : ℕ) (l : List α) (u : Unit) :
    forEach f i l = .ok u ↔ ∀ a ∈ l, P a := by
  induction l generalizing i with
  | nil => simp [forEach]
  | cons a l ih => simp [forEach, bind_eq_ok, hf, ih]

theorem forEach_check {c : α → Prop} [∀ a, Decidable (c a)] {e : ℕ → α → ε} (i : ℕ) (l : List α)
    (u : Unit) : forEach (fun i a => check (c a) (e i a)) i l = .ok u ↔ ∀ a ∈ l, c a :=
  forEach_eq_ok (P := c) (fun _ _ _ => check_eq_ok) i l u

theorem mapEach_eq_ok {f : ℕ → α → Except ε β} {g : α → β}
    (hf : ∀ i a b, f i a = .ok b ↔ P a ∧ b = g a) (i : ℕ) (l : List α) (l' : List β) :
    mapEach f i l = .ok l' ↔ (∀ a ∈ l, P a) ∧ l' = l.map g := by
  induction l generalizing i l' with
  | nil => simp [mapEach, eq_comm]
  | cons a l ih =>
    simp only [mapEach, bind_eq_ok, hf, ih, Except.ok.injEq, List.forall_mem_cons, List.map_cons]
    constructor
    · rintro ⟨b, ⟨ha, rfl⟩, rest, ⟨hl, rfl⟩, rfl⟩
      exact ⟨⟨ha, hl⟩, rfl⟩
    · rintro ⟨⟨ha, hl⟩, rfl⟩
      exact ⟨g a, ⟨ha, rfl⟩, l.map g, ⟨hl, rfl⟩, rfl⟩

end MagnusPS5.Lib
