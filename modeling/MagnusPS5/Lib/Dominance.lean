/-
Blocks of items, and which items every way to a place has passed.

A `Flow` is a graph of blocks, each a list of items. A `Path` leads from the start of
block 0 to a place between two items and collects the items it has passed, the last one
first. An item is available at a place if every path to the place has passed it, and
dominates another item if it is available where the other one stands.
-/
import Mathlib.Data.List.Basic

namespace MagnusPS5.Lib

open List

/-- A graph of blocks of items. -/
structure Flow (ι : Type*) where
  code : ℕ → List ι
  edge : ℕ → ℕ → Prop

namespace Flow

variable {ι : Type*} (F : Flow ι)

/-- The item stands in the block, with `k` items of the block before it. -/
def At (i : ι) (b k : ℕ) : Prop := (F.code b)[k]? = some i

instance [DecidableEq ι] (i : ι) (b k : ℕ) : Decidable (F.At i b k) :=
  inferInstanceAs (Decidable ((F.code b)[k]? = some i))

/-- A way from the start to the place behind `k` items of a block, with the items passed. -/
inductive Path : ℕ → ℕ → List ι → Prop
  | start : Path 0 0 []
  | step {b k : ℕ} {trace : List ι} {i : ι} (h : Path b k trace) (hi : F.At i b k) :
      Path b (k + 1) (i :: trace)
  | jump {b c : ℕ} {trace : List ι} (h : Path b (F.code b).length trace) (hedge : F.edge b c) :
      Path c 0 trace

/-- Every way to the place has passed the item. -/
def Avail (i : ι) (b k : ℕ) : Prop := ∀ trace, F.Path b k trace → i ∈ trace

/-- Every way to an item has passed another one before. -/
def Dom (y i : ι) : Prop := ∀ b k, F.At i b k → F.Avail y b k

/-- No item stands at two places. -/
def Unique : Prop := ∀ i b k b' k', F.At i b k → F.At i b' k' → b = b' ∧ k = k'

variable {F} {i y : ι} {b k c : ℕ} {trace : List ι}

theorem Path.before (h : F.Path b k trace) (hi : i ∈ trace) :
    ∃ b' k' trace', F.At i b' k' ∧ F.Path b' k' trace' ∧ i :: trace' <:+ trace := by
  induction h with
  | start => nomatch hi
  | @step b k trace j h hj ih =>
    rcases mem_cons.mp hi with rfl | hi
    · exact ⟨b, k, trace, hj, h, suffix_refl _⟩
    · obtain ⟨b', k', trace', h1, h2, h3⟩ := ih hi
      exact ⟨b', k', trace', h1, h2, h3.trans (suffix_cons _ _)⟩
  | jump h hedge ih => exact ih hi

theorem Avail.of_dom (h : F.Avail i b k) (hd : F.Dom y i) : F.Avail y b k := by
  intro trace hpath
  obtain ⟨b', k', trace', h1, h2, h3⟩ := hpath.before (h trace hpath)
  exact h3.subset (.tail _ (hd b' k' h1 trace' h2))

theorem Dom.trans {z : ι} (hz : F.Dom z y) (hy : F.Dom y i) : F.Dom z i :=
  fun b k hi => (hy b k hi).of_dom hz

theorem Avail.jump (h : F.Avail i c 0) (hedge : F.edge b c) : F.Avail i b (F.code b).length :=
  fun trace hpath => h trace (.jump hpath hedge)

theorem Avail.of_step {j : ι} (hj : F.At j b k) (h : F.Avail i b (k + 1)) (hne : i ≠ j) :
    F.Avail i b k := by
  intro trace hpath
  rcases mem_cons.mp (h _ (.step hpath hj)) with rfl | hi
  · exact absurd rfl hne
  · exact hi

theorem Unique.path_avoiding (hu : F.Unique) (hj : F.At y b k) (hd : F.Dom y i ∨ y = i)
    (h : F.Path b k trace) : ∃ trace', F.Path b k trace' ∧ i ∉ trace' := by
  induction hn : trace.length using Nat.strongRecOn generalizing trace with
  | _ n ih =>
    by_cases hi : i ∈ trace
    · -- the item was passed before, and `y` before that: there is a shorter way
      obtain ⟨b1, k1, trace1, hat1, hpath1, hsuffix1⟩ := h.before hi
      have hshort1 : trace1.length < trace.length := hsuffix1.length_le
      rcases hd with hd | rfl
      · obtain ⟨b2, k2, trace2, hat2, hpath2, hsuffix2⟩ := hpath1.before (hd b1 k1 hat1 _ hpath1)
        have hshort2 : trace2.length < trace1.length := hsuffix2.length_le
        obtain ⟨rfl, rfl⟩ := hu _ _ _ _ _ hat2 hj
        exact ih trace2.length (by omega) hpath2 rfl
      · obtain ⟨rfl, rfl⟩ := hu _ _ _ _ _ hat1 hj
        exact ih trace1.length (by omega) hpath1 rfl
    · exact ⟨trace, h, hi⟩

theorem Unique.not_dom_self (hu : F.Unique) (hi : F.At i b k) (h : F.Path b k trace) :
    ¬ F.Dom i i := by
  intro hd
  obtain ⟨trace', hpath, hnot⟩ := hu.path_avoiding hi (.inr rfl) h
  exact hnot (hd b k hi trace' hpath)

/-- **Behind an item nothing is available that it dominates.** -/
theorem Unique.not_avail_after (hu : F.Unique) (hj : F.At y b k) (hd : F.Dom y i)
    (h : F.Path b k trace) : ¬ F.Avail i b (k + 1) := by
  intro havail
  obtain ⟨trace', hpath, hnot⟩ := hu.path_avoiding hj (.inl hd) h
  rcases mem_cons.mp (havail _ (.step hpath hj)) with rfl | hi
  · exact hu.not_dom_self hj h hd
  · exact hnot hi

theorem Path.first {κ : ι → Prop} (h : F.Path b k trace) (hi : ∃ i ∈ trace, κ i) :
    ∃ j b' k' trace', κ j ∧ F.At j b' k' ∧ F.Path b' k' trace' ∧ ∀ i ∈ trace', ¬ κ i := by
  induction h with
  | start =>
    obtain ⟨i, hi, _⟩ := hi
    nomatch hi
  | @step b k trace j h hj ih =>
    by_cases hearlier : ∃ i ∈ trace, κ i
    · exact ih hearlier
    · -- nothing of the kind was passed before, so the last item is the first of it
      obtain ⟨i, hi, hκ⟩ := hi
      rcases mem_cons.mp hi with rfl | hi
      · exact ⟨i, b, k, trace, hκ, hj, h, fun l hl hκl => hearlier ⟨l, hl, hκl⟩⟩
      · exact absurd ⟨i, hi, hκ⟩ hearlier
  | jump h hedge ih => exact ih hi

theorem Path.arrival (h : F.Path b k trace) (hb : b ≠ 0) :
    ∃ p trace', F.Path p (F.code p).length trace' ∧ F.edge p b ∧ trace' <:+ trace := by
  induction h with
  | start => exact absurd rfl hb
  | step h hi ih =>
    obtain ⟨p, trace', h1, h2, h3⟩ := ih hb
    exact ⟨p, trace', h1, h2, h3.trans (suffix_cons _ _)⟩
  | @jump p c trace h hedge ih => exact ⟨p, trace, h, hedge, suffix_refl _⟩

theorem Avail.to_start (h : F.Avail i b k) (hk : k ≤ (F.code b).length)
    (hout : ∀ k', ¬ F.At i b k') : F.Avail i b 0 := by
  induction k with
  | zero => exact h
  | succ k ih =>
    have hat : F.At (F.code b)[k] b k := getElem?_eq_getElem hk
    refine ih (h.of_step hat ?_) (Nat.le_of_succ_le hk)
    rintro rfl
    exact hout k hat

theorem Path.position_le (h : F.Path b k trace) : k ≤ (F.code b).length := by
  cases h with
  | start | jump => exact Nat.zero_le _
  | step h hi => exact (List.getElem?_eq_some_iff.mp hi).1

theorem Path.passed (h : F.Path b (k + 1) trace) (hi : F.At i b k) : i ∈ trace := by
  cases h with
  | step h hi' =>
    cases Option.some.inj (hi.symm.trans hi')
    exact .head _

theorem Path.earlier {k' : ℕ} (h : F.Path b k trace) (hk : k' ≤ k) :
    ∃ trace', F.Path b k' trace' ∧ trace' <:+ trace := by
  induction h with
  | start => exact ⟨[], (by rw [Nat.le_zero.mp hk]; exact .start), suffix_refl _⟩
  | @step b k trace j h hj ih =>
    by_cases heq : k' = k + 1
    · exact ⟨_, heq ▸ .step h hj, suffix_refl _⟩
    · obtain ⟨trace', h1, h2⟩ := ih (by omega)
      exact ⟨trace', h1, h2.trans (suffix_cons _ _)⟩
  | jump h hedge ih => exact ⟨_, (by rw [Nat.le_zero.mp hk]; exact .jump h hedge), suffix_refl _⟩

theorem Unique.lt_of_avail {k' : ℕ} (hu : F.Unique) (hi : F.At i b k') (h : F.Avail i b k)
    (hpath : F.Path b k trace) : k' < k := by
  by_contra hle
  obtain ⟨j, b1, k1, trace1, rfl, hat, hfirst, hnot⟩ := hpath.first ⟨i, h trace hpath, rfl⟩
  obtain ⟨rfl, rfl⟩ := hu _ _ _ _ _ hat hi
  obtain ⟨trace2, hpath2, hsuffix⟩ := hfirst.earlier (Nat.le_of_not_lt hle)
  exact hnot i (hsuffix.subset (h trace2 hpath2)) rfl

theorem Path.block_start (h : F.Path b k trace) :
    ∃ trace', F.Path b 0 trace' ∧ trace' <:+ trace := by
  induction h with
  | start => exact ⟨[], .start, suffix_refl _⟩
  | step h hi ih =>
    obtain ⟨trace', h1, h2⟩ := ih
    exact ⟨trace', h1, h2.trans (suffix_cons _ _)⟩
  | jump h hedge ih => exact ⟨_, .jump h hedge, suffix_refl _⟩

end Flow

end MagnusPS5.Lib
