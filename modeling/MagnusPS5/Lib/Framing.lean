/-
Items laid one after the other.

`size p` is the size of the item that starts at `p`, if there is one. `Whole size p e` says that
items lie from `p` on and the last of them ends at `e`. Where an item starts decides where the next
one does, so of two places that items reach from `p` the further is reached from the nearer
(`Whole.between`).
-/
import Mathlib.Data.Nat.Basic
import Mathlib.Tactic.Common

namespace MagnusPS5.Lib

/-- Whole items from one place to another. -/
inductive Whole (size : ℕ → Option ℕ) : ℕ → ℕ → Prop
  | nil (p : ℕ) : Whole size p p
  | cons {p n e : ℕ} : size p = some n → Whole size (p + n) e → Whole size p e

namespace Whole

variable {size : ℕ → Option ℕ} {p q e n : ℕ}

theorem single (h : size p = some n) : Whole size p (p + n) := .cons h (.nil _)

theorem le (h : Whole size p e) : p ≤ e := by
  induction h with
  | nil p => exact le_rfl
  | cons _ _ ih => exact le_trans (Nat.le_add_right _ _) ih

theorem trans (h : Whole size p q) (h' : Whole size q e) : Whole size p e := by
  induction h with
  | nil p => exact h'
  | cons hsize _ ih => exact .cons hsize (ih h')

theorem tail (h : Whole size p e) (hlt : p < e) : ∃ n, size p = some n ∧ Whole size (p + n) e := by
  cases h with
  | nil => exact absurd hlt (lt_irrefl p)
  | cons hsize hrest => exact ⟨_, hsize, hrest⟩

/-- **Of two places that items reach, the further is reached from the nearer.** -/
theorem between (hpos : ∀ p n, size p = some n → 0 < n) (h : Whole size p q)
    (h' : Whole size p e) (hle : q ≤ e) : Whole size q e := by
  induction h with
  | nil p => exact h'
  | @cons p n q hsize hrest ih =>
    -- both start with the same item, which ends by `q`
    have hn := hpos p n hsize
    have hq := hrest.le
    obtain ⟨m, hm, htail⟩ := h'.tail (by omega)
    rw [hsize, Option.some.injEq] at hm
    rw [← hm] at htail
    exact ih htail hle

theorem congr {size' : ℕ → Option ℕ} (h : Whole size p e) (hsize : ∀ q < e, size q = size' q)
    (hpos : ∀ p n, size p = some n → 0 < n) : Whole size' p e := by
  induction h with
  | nil p => exact .nil _
  | @cons p n e hitem hrest ih =>
    have hn := hpos p n hitem
    have hle := hrest.le
    rw [hsize p (by omega)] at hitem
    exact .cons hitem (ih hsize)

theorem shift (d : ℕ) : Whole (fun p => size (d + p)) p e ↔ Whole size (d + p) (d + e) := by
  constructor
  · intro h
    induction h with
    | nil p => exact .nil _
    | cons hsize _ ih => exact .cons hsize (by rwa [Nat.add_assoc])
  · intro h
    generalize hq : d + p = q at h
    generalize hf : d + e = f at h
    induction h generalizing p with
    | nil q =>
      have heq : p = e := by omega
      rw [heq]
      exact .nil _
    | @cons q n f hsize _ ih =>
      refine .cons (n := n) (by rwa [hq]) (ih ?_ hf)
      omega

end Whole

end MagnusPS5.Lib
