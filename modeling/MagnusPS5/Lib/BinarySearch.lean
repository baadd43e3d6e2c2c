/-
A binary search that runs a fixed number of steps.

Every step looks at the middle of the window `[low, high)`, or at the first entry once the
window is empty. There is no early exit: the payload of an entry with the key is kept, and the
search goes on.
-/
import Mathlib.Data.Nat.Size
import Mathlib.Tactic.Ring

namespace MagnusPS5.Lib

/-- The window of a search, and the payload that it has found. -/
structure Window (α : Type) where
  low : ℕ
  high : ℕ
  selected : α
  deriving DecidableEq

namespace Window

variable {κ α : Type} [LinearOrder κ]

section Steps

variable (keys : ℕ → κ) (payload : ℕ → α) (key : κ)

/-- The entry that the next step looks at. -/
def probe (w : Window α) : ℕ := if w.low < w.high then (w.low + w.high) / 2 else 0

/-- One step. -/
def step (w : Window α) : Window α :=
  let active := w.low < w.high
  let mid := (w.low + w.high) / 2
  { low := if active ∧ keys w.probe < key then mid + 1 else w.low
    high := if active ∧ ¬ keys w.probe < key then mid else w.high
    selected := if active ∧ keys w.probe = key then payload w.probe else w.selected }

/-- A number of steps. -/
def search : ℕ → Window α → Window α
  | 0, w => w
  | n + 1, w => search n (w.step keys payload key)

end Steps

variable {keys : ℕ → κ} {payload : ℕ → α} {key : κ} {w : Window α} {count t n : ℕ}

/-- What a search for the key of the entry `t` keeps: the payload is found, or the entry is
still in the window, which the remaining steps can empty. -/
def Finds (payload : ℕ → α) (t n : ℕ) (w : Window α) : Prop :=
  w.selected = payload t ∨ w.low ≤ t ∧ t < w.high ∧ w.high - w.low < 2 ^ n

theorem step_of_empty (h : ¬ w.low < w.high) : w.step keys payload key = w := by
  unfold step
  simp only [h, false_and, if_false]

theorem high_step_le : (w.step keys payload key).high ≤ w.high := by
  unfold step
  dsimp only
  split
  · omega
  · exact le_rfl

theorem probe_lt (hhigh : w.high ≤ count) (hcount : 0 < count) : w.probe < count := by
  unfold probe
  split
  · omega
  · exact hcount

section

variable (hkeys : ∀ i j, i < j → j < count → keys i < keys j) (ht : t < count) (hkey : keys t = key)

include hkeys ht hkey

/-- **One step** keeps the entry in reach. -/
theorem Finds.step (hhigh : w.high ≤ count) (h : Finds payload t (n + 1) w) :
    Finds payload t n (w.step keys payload key) := by
  by_cases hactive : w.low < w.high
  · have hprobe : w.probe = (w.low + w.high) / 2 := if_pos hactive
    have hmid : w.probe < count := probe_lt hhigh (by omega)
    unfold Window.step
    simp only [hactive, true_and]
    rw [← hprobe]
    obtain hfound | ⟨hlow, hlt, hsize⟩ := h
    · -- the keys are different, so only the entry itself can be found again
      refine .inl ?_
      dsimp only
      split
      next heq =>
        obtain hless | hsame | hmore := lt_trichotomy w.probe t
        · exact absurd (heq.trans hkey.symm) (hkeys _ _ hless ht).ne
        · rw [hsame]
        · exact absurd (hkey.trans heq.symm) (hkeys _ _ hmore hmid).ne
      · exact hfound
    · obtain hless | hsame | hmore := lt_trichotomy w.probe t
      · have hbelow : keys w.probe < key := hkey ▸ hkeys _ _ hless ht
        refine .inr ?_
        simp only [hbelow, if_true, not_true_eq_false, if_false]
        omega
      · refine .inl ?_
        dsimp only
        rw [if_pos (by rw [hsame, hkey]), hsame]
      · have habove : ¬ keys w.probe < key := by
          rw [← hkey]
          exact (hkeys _ _ hmore hmid).not_gt
        refine .inr ?_
        simp only [habove, if_false, not_false_eq_true, if_true]
        omega
  · rw [step_of_empty hactive]
    refine h.imp_right fun ⟨hlow, hlt, _⟩ => ?_
    omega

theorem Finds.search (hhigh : w.high ≤ count) (h : Finds payload t n w) :
    (search keys payload key n w).selected = payload t := by
  induction n generalizing w with
  | zero =>
    obtain hfound | ⟨hlow, hlt, hsize⟩ := h
    · exact hfound
    · omega
  | succ n ih => exact ih (high_step_le.trans hhigh) (h.step hkeys ht hkey hhigh)

/-- **The search finds** the payload of a key that the table has. -/
theorem search_selected (hcount : count < 2 ^ n) (start : α) :
    (search keys payload key n ⟨0, count, start⟩).selected = payload t :=
  Finds.search hkeys ht hkey le_rfl (.inr ⟨Nat.zero_le t, ht, hcount⟩)

end

end Window

end MagnusPS5.Lib
