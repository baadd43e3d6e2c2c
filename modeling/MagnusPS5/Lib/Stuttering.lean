/-
Machines that follow a reference run, with steps in between that it does not see.

`Follows` says that each step of a machine is one the reference can take, or leaves what the
reference sees as it was, as long as the machine is alive. A step with a label is one the reference
takes with that label. Then every run of the machine is a run of the reference with the labels of
the machine's steps (`Follows.run`). That the machine does not go on for ever without the reference
moving is shown with a rank (`exists_done`).
-/
import Mathlib.Logic.Function.Iterate
import Mathlib.Data.List.Basic

namespace MagnusPS5.Lib

variable {σ τ ι κ : Type*}

/-- A run of a reference, with the labels of its steps in their order; a step may have none. -/
inductive Takes (ref : Option κ → τ → τ → Prop) : List κ → τ → τ → Prop
  | refl (t : τ) : Takes ref [] t t
  | head {l : Option κ} {labels : List κ} {t u v : τ} (h : ref l t u) (hrun : Takes ref labels u v) :
      Takes ref (l.toList ++ labels) t v

/-- The steps of a machine over `σ` keep `I`, and as long as it is alive they show as steps of `ref`
under `view`. -/
structure Follows (step : ι → σ → σ) (label : ι → Option κ) (ref : Option κ → τ → τ → Prop)
    (view : σ → τ) (I live : σ → Prop) : Prop where
  keep : ∀ i s, I s → I (step i s)
  seen : ∀ i s, I s → live (step i s) → live s ∧
    (label i = none ∧ view (step i s) = view s ∨ ref (label i) (view s) (view (step i s)))

/-- The state after some steps. -/
def after (step : ι → σ → σ) (s : σ) (steps : List ι) : σ := steps.foldl (fun s i => step i s) s

section Follows

variable {step : ι → σ → σ} {label : ι → Option κ} {ref : Option κ → τ → τ → Prop} {view : σ → τ}
  {I live : σ → Prop}

theorem Follows.after (h : Follows step label ref view I live) (steps : List ι) {s : σ} (hs : I s) :
    I (after step s steps) := by
  induction steps generalizing s with
  | nil => exact hs
  | cons i steps ih => exact ih (h.keep i s hs)

/-- **A run of the machine is a run of the reference.** -/
theorem Follows.run (h : Follows step label ref view I live) (steps : List ι) {s : σ} (hs : I s)
    (hlive : live (Lib.after step s steps)) :
    live s ∧ Takes ref (steps.filterMap label) (view s) (view (Lib.after step s steps)) := by
  induction steps generalizing s with
  | nil => exact ⟨hlive, .refl _⟩
  | cons i steps ih =>
    obtain ⟨hlive', hrun⟩ := ih (h.keep i s hs) hlive
    obtain ⟨hs', hseen⟩ := h.seen i s hs hlive'
    refine ⟨hs', ?_⟩
    rcases hseen with ⟨hnone, heq⟩ | hmove
    · rw [heq] at hrun
      rwa [List.filterMap_cons_none hnone]
    · have hlabels : (i :: steps).filterMap label = (label i).toList ++ steps.filterMap label := by
        cases hlabel : label i <;> simp [hlabel]
      rw [hlabels]
      exact .head hmove hrun

end Follows

/-- **A machine whose rank falls with each step that does not matter is soon done.** -/
theorem exists_done {next : σ → σ} (I done : σ → Prop) (rank : σ → ℕ) (keep : ∀ s, I s → I (next s))
    (h : ∀ s, I s → ¬ done s → done (next s) ∨ rank (next s) < rank s) {s : σ} (hs : I s) :
    ∃ n ≤ rank s + 1, done (next^[n] s) := by
  induction hk : rank s using Nat.strongRecOn generalizing s with
  | ind k ih =>
    by_cases hd : done s
    · exact ⟨0, Nat.zero_le _, hd⟩
    rcases h s hs hd with hn | hlt
    · exact ⟨1, by omega, hn⟩
    · -- the next state has a lower rank, and its own number of steps
      obtain ⟨n, hle, hdone⟩ := ih (rank (next s)) (hk ▸ hlt) (keep s hs) rfl
      refine ⟨n + 1, by omega, ?_⟩
      rw [Function.iterate_succ_apply]
      exact hdone

end MagnusPS5.Lib
