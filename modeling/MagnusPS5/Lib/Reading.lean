/-
Computations that read at a cursor.

A computation says which spans it has read, also when it fails, and where its cursor ends up.
`Meets` bounds the reads and describes the result; its rules follow the way a computation is
put together.
-/
import Mathlib.Tactic.Common

namespace MagnusPS5.Lib

/-- A span that was read. -/
structure Read where
  address : ℕ
  size : ℕ
  deriving DecidableEq

def Reader (α : Type) := ℕ → List Read × Option (α × ℕ)

namespace Reader

variable {α β : Type}

def pure (a : α) : Reader α := fun cursor => ([], some (a, cursor))

def fail : Reader α := fun _ => ([], none)

def bind (m : Reader α) (f : α → Reader β) : Reader β := fun cursor =>
  match (m cursor).2 with
  | none => ((m cursor).1, none)
  | some (a, next) => ((m cursor).1 ++ (f a next).1, (f a next).2)

instance : Monad Reader where
  pure := pure
  bind := bind

/-- Read a span without moving the cursor. -/
def peek (read : Read) (a : α) : Reader α := fun cursor => ([read], some (a, cursor))

/-- From a cursor on, all reads are of one kind, and a result with its cursor of another. -/
def Meets (m : Reader α) (cursor : ℕ) (R : Read → Prop) (Q : α → ℕ → Prop) : Prop :=
  (∀ read ∈ (m cursor).1, R read) ∧ ∀ a next, (m cursor).2 = some (a, next) → Q a next

namespace Meets

variable {m : Reader α} {f : α → Reader β} {cursor : ℕ} {R R' : Read → Prop}
  {P : α → ℕ → Prop} {Q : β → ℕ → Prop} {Q' : β → ℕ → Prop}

theorem pure {b : β} (h : Q b cursor) : Meets (.pure b : Reader β) cursor R Q := by
  refine ⟨fun read hread => absurd hread List.not_mem_nil, fun a next heq => ?_⟩
  cases heq
  exact h

theorem fail : Meets (.fail : Reader β) cursor R Q :=
  ⟨fun read hread => absurd hread List.not_mem_nil, fun a next heq => by cases heq⟩

theorem peek {read : Read} {b : β} (hread : R read) (h : Q b cursor) :
    Meets (.peek read b) cursor R Q := by
  refine ⟨fun read' hmem => ?_, fun a next heq => ?_⟩
  · rw [List.mem_singleton.mp hmem]
    exact hread
  · cases heq
    exact h

theorem bind (hm : Meets m cursor R P) (hf : ∀ a next, P a next → Meets (f a) next R Q) :
    Meets (m >>= f) cursor R Q := by
  change Meets (Reader.bind m f) cursor R Q
  unfold Meets Reader.bind
  cases hresult : (m cursor).2 with
  | none => exact ⟨hm.1, fun a next heq => by cases heq⟩
  | some result =>
    obtain ⟨hreads, hnext⟩ := hf result.1 result.2 (hm.2 _ _ hresult)
    refine ⟨fun read hmem => ?_, hnext⟩
    rcases List.mem_append.mp hmem with h | h
    · exact hm.1 read h
    · exact hreads read h

theorem congr {m m' : Reader β} (h : Meets m' cursor R Q) (heq : m cursor = m' cursor) :
    Meets m cursor R Q := by
  unfold Meets
  rw [heq]
  exact h

theorem imp {m : Reader β} (h : Meets m cursor R Q) (hR : ∀ read, R read → R' read)
    (hQ : ∀ b next, Q b next → Q' b next) : Meets m cursor R' Q' :=
  ⟨fun read hread => hR read (h.1 read hread), fun b next heq => hQ b next (h.2 b next heq)⟩

end Meets

end Reader

end MagnusPS5.Lib
