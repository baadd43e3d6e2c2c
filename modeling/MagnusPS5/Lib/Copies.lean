/-
Copying a block of bytes between two arrays, in one go or piece by piece.

An array is a function from positions to values. `copyBlock` is the block copy;
two blocks that lie end to end on both sides are one (`copyBlock_append`). A
`Transfer` is any operation on a state with that property, so that a loop which
moves a block in several windows moves the block.
-/
import Mathlib.Tactic.Common

namespace MagnusPS5.Lib

variable {α σ : Type*}

/-- Copy `size` values of `source`, from position `from_` on, into `target`, to position
`to_` on. -/
def copyBlock (source : ℕ → α) (from_ to_ size : ℕ) (target : ℕ → α) : ℕ → α :=
  fun i => if to_ ≤ i ∧ i < to_ + size then source (from_ + (i - to_)) else target i

variable {from_ to_ size i : ℕ} {source target : ℕ → α}

theorem copyBlock_of_mem (h1 : to_ ≤ i)
    (h2 : i < to_ + size) : copyBlock source from_ to_ size target i = source (from_ + (i - to_)) :=
  if_pos ⟨h1, h2⟩

theorem copyBlock_of_not_mem
    (h : ¬ (to_ ≤ i ∧ i < to_ + size)) : copyBlock source from_ to_ size target i = target i :=
  if_neg h

theorem copyBlock_append (source target : ℕ → α) (from_ to_ m n : ℕ) :
    copyBlock source (from_ + m) (to_ + m) n (copyBlock source from_ to_ m target) =
      copyBlock source from_ to_ (m + n) target := by
  funext i
  by_cases hsecond : to_ + m ≤ i ∧ i < to_ + m + n
  · rw [copyBlock_of_mem hsecond.1 hsecond.2, copyBlock_of_mem (by omega) (by omega)]
    congr 1
    omega
  · rw [copyBlock_of_not_mem hsecond]
    by_cases hfirst : to_ ≤ i ∧ i < to_ + m
    · rw [copyBlock_of_mem hfirst.1 hfirst.2, copyBlock_of_mem hfirst.1 (by omega)]
    · rw [copyBlock_of_not_mem hfirst, copyBlock_of_not_mem (by omega)]

/-- An operation that moves a block: `move from_ to_ size`. Moving it in two pieces is
moving it. -/
structure Transfer (move : ℕ → ℕ → ℕ → σ → σ) : Prop where
  zero : ∀ from_ to_ s, move from_ to_ 0 s = s
  append : ∀ from_ to_ m n s,
    move (from_ + m) (to_ + m) n (move from_ to_ m s) = move from_ to_ (m + n) s

theorem copyBlock_zero (source target : ℕ → α) (from_ to_ : ℕ) :
    copyBlock source from_ to_ 0 target = target := by
  funext i
  exact copyBlock_of_not_mem (by omega)

theorem transfer_copyBlock (source : ℕ → α) : Transfer (copyBlock source) where
  zero _ _ target := copyBlock_zero source target _ _
  append _ _ _ _ target := copyBlock_append source target _ _ _ _

theorem transfer_copyBlock_flip (source : ℕ → α) :
    Transfer fun to_ from_ size => copyBlock source from_ to_ size where
  zero _ _ target := copyBlock_zero source target _ _
  append _ _ _ _ target := copyBlock_append source target _ _ _ _

end MagnusPS5.Lib
