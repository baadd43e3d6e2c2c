/-
Assignments that are made one after the other, and all at once.

An assignment writes to a destination what it makes of the state. Made in sequence, each
one sees what the earlier ones have written; made at once, all see the state before.
-/
import Mathlib.Tactic.Common

namespace MagnusPS5.Lib

/-- A destination, and what is written there. -/
structure Assignment (σ δ υ : Type*) where
  dst : δ
  value : σ → υ

variable {σ δ υ : Type*} (write : δ → υ → σ → σ)

/-- Each assignment sees the state that the earlier ones have left. -/
def sequential (assignments : List (Assignment σ δ υ)) (s : σ) : σ :=
  assignments.foldl (fun r a => write a.dst (a.value r) r) s

/-- Destinations are written in order, with values that are known before. -/
def writeAll (writes : List (δ × υ)) (s : σ) : σ :=
  writes.foldl (fun r w => write w.1 w.2 r) s

/-- All assignments see the state before. -/
def simultaneous (assignments : List (Assignment σ δ υ)) (s : σ) : σ :=
  writeAll write (assignments.map fun a => (a.dst, a.value s)) s

/-- The assignment `a` does not look at the destination of `b`. -/
def Overlooks (b a : Assignment σ δ υ) : Prop :=
  ∀ v s, a.value (write b.dst v s) = a.value s

variable {write} {assignments rest : List (Assignment σ δ υ)} {s : σ}

theorem simultaneous_eq_sequential :
    simultaneous write assignments s =
      sequential write (assignments.map fun a => ⟨a.dst, fun _ => a.value s⟩) s := by
  unfold simultaneous writeAll sequential
  rw [List.foldl_map, List.foldl_map]

theorem sequential_append :
    sequential write (assignments ++ rest) s =
      sequential write rest (sequential write assignments s) :=
  List.foldl_append

theorem sequential_eq_writeAll (h : assignments.Pairwise (Overlooks write)) {r : σ}
    (hr : ∀ a ∈ assignments, a.value r = a.value s) :
    sequential write assignments r =
      writeAll write (assignments.map fun a => (a.dst, a.value s)) r := by
  induction assignments generalizing r with
  | nil => rfl
  | cons a assignments ih =>
    obtain ⟨hhead, htail⟩ := List.pairwise_cons.mp h
    have hvalue : a.value r = a.value s := hr a List.mem_cons_self
    have hrest (b : Assignment σ δ υ) (hb : b ∈ assignments) :
        b.value (write a.dst (a.value r) r) = b.value s :=
      (hhead b hb _ _).trans (hr b (.tail _ hb))
    have hih := ih htail hrest
    rw [hvalue] at hih
    simpa only [sequential, writeAll, List.foldl_cons, List.map_cons, hvalue] using hih

/-- **Assignments that overlook each other's destinations may be made in sequence.** -/
theorem sequential_eq_simultaneous (h : assignments.Pairwise (Overlooks write)) :
    sequential write assignments s = simultaneous write assignments s :=
  sequential_eq_writeAll h fun _ _ => rfl

end MagnusPS5.Lib
