/-
Reuse of a linear resource guarded by watches. A watch says that everything up to its
bound was handed over at its tick or before; a list of watches is worked off from the
front, and the position up to which it has been worked off is the base.

Ticks and positions are elements of arbitrary linear orders.
-/
import Mathlib

namespace MagnusPS5.Lib

variable {T P : Type*} [LinearOrder T] [LinearOrder P]

/-- What was handed over up to `upper_bound`, at `tick` or before. -/
structure Watch (T P : Type*) where
  tick : T
  upper_bound : P
  deriving DecidableEq

/-- What was handed over at time `t` from position `s` on is guarded: before the list is
worked off beyond `s`, a watch with a tick not before `t` is met. -/
def Guarded (t : T) (s : P) : P → List (Watch T P) → Prop
  | _, [] => False
  | base, w :: ws => base ≤ s ∧ (t ≤ w.tick ∨ Guarded t s w.upper_bound ws)

variable {t : T} {s base : P} {w v : Watch T P} {ws vs : List (Watch T P)}

/-- Once the first watch has been waited for, what is still in use is guarded by the
others. -/
theorem Guarded.tail (h : Guarded t s base (w :: ws)) (hfree : w.tick < t) :
    Guarded t s w.upper_bound ws := by
  obtain h | h := h.2
  · exact absurd h (not_le.mpr hfree)
  · exact h

theorem Guarded.base_le (h : Guarded t s base ws) : base ≤ s := by
  cases ws with
  | nil => exact h.elim
  | cons w ws => exact h.1

theorem Guarded.of_head (hne : ws ≠ []) (hbase : base ≤ s) (hold : ∀ w ∈ ws, t ≤ w.tick) :
    Guarded t s base ws := by
  cases ws with
  | nil => exact absurd rfl hne
  | cons w ws => exact ⟨hbase, Or.inl (hold w List.mem_cons_self)⟩

theorem Guarded.concat (hbase : base ≤ s) (hbound : ∀ v ∈ ws, v.upper_bound ≤ s)
    (ht : t ≤ w.tick) : Guarded t s base (ws ++ [w]) := by
  induction ws generalizing base with
  | nil => exact ⟨hbase, Or.inl ht⟩
  | cons v ws ih =>
    refine ⟨hbase, Or.inr ?_⟩
    apply ih (hbound v List.mem_cons_self)
    intro u hu
    exact hbound u (List.mem_cons_of_mem v hu)

theorem Guarded.append (h : Guarded t s base ws) (vs : List (Watch T P)) :
    Guarded t s base (ws ++ vs) := by
  induction ws generalizing base with
  | nil => exact h.elim
  | cons v ws ih =>
    refine ⟨h.1, ?_⟩
    obtain ht | ht := h.2
    · exact .inl ht
    · exact .inr (ih ht)

theorem Guarded.extend (h : Guarded t s base (ws ++ [w])) (ht : w.tick = v.tick) :
    Guarded t s base (ws ++ [v]) := by
  induction ws generalizing base with
  | nil =>
    refine ⟨h.1, ?_⟩
    obtain hw | hw := h.2
    · exact .inl (ht ▸ hw)
    · exact hw.elim
  | cons u ws ih =>
    refine ⟨h.1, ?_⟩
    obtain hu | hu := h.2
    · exact .inl hu
    · exact .inr (ih hu)

end MagnusPS5.Lib
