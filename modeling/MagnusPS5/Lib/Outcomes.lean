/-
Outcomes of computations that change a state and can fail.

`Ends I x Q E`: started in a state of which `I` holds, the computation `x` either returns
a value and a state of which `Q` holds, or fails with an error of which `E` holds. The
rules follow the way the computation is put together. A failed computation has no state.
-/
import Mathlib.Tactic.Common

namespace MagnusPS5.Lib

variable {σ ε α β : Type}

/-- The outcome of `x` in each state of which `I` holds. -/
def Ends (I : σ → Prop) (x : StateT σ (Except ε) α) (Q : α → σ → Prop) (E : ε → Prop) : Prop :=
  ∀ s, I s →
    match x s with
    | .ok (a, s') => Q a s'
    | .error e => E e

variable {I : σ → Prop} {x : StateT σ (Except ε) α} {Q : α → σ → Prop} {E : ε → Prop}

namespace Ends

variable {J : σ → Prop} {Q' : α → σ → Prop} {E' : ε → Prop}

theorem pure {a : α} (h : ∀ s, I s → Q a s) : Ends I (.pure a) Q E := h

theorem throw {e : ε} (h : E e) : Ends I (throw e : StateT σ (Except ε) α) Q E := fun _ _ => h

theorem bind {f : α → StateT σ (Except ε) β} {Q' : β → σ → Prop} (hx : Ends I x Q E)
    (hf : ∀ a, Ends (Q a) (f a) Q' E) : Ends I (x >>= f) Q' E := by
  intro s hs
  have hx := hx s hs
  change match (StateT.bind x f) s with
    | .ok (a, s') => Q' a s'
    | .error e => E e
  unfold StateT.bind
  cases hrun : x s with
  | error e =>
    rw [hrun] at hx
    exact hx
  | ok result =>
    rw [hrun] at hx
    exact hf result.1 result.2 hx

theorem imp (h : Ends I x Q E) (hI : ∀ s, J s → I s) (hQ : ∀ a s, Q a s → Q' a s)
    (hE : ∀ e, E e → E' e) : Ends J x Q' E' := by
  intro s hs
  have h := h s (hI s hs)
  cases hrun : x s with
  | error e =>
    rw [hrun] at h
    exact hE e h
  | ok result =>
    rw [hrun] at h
    exact hQ result.1 result.2 h

theorem and (h : Ends I x Q E) (h' : Ends I x Q' E') :
    Ends I x (fun a s => Q a s ∧ Q' a s) fun e => E e ∧ E' e := by
  intro s hs
  have h := h s hs
  have h' := h' s hs
  cases hrun : x s with
  | error | ok =>
    rw [hrun] at h h'
    exact ⟨h, h'⟩

theorem modified {f : σ → σ} {Q : PUnit → σ → Prop} (h : ∀ s, I s → Q ⟨⟩ (f s)) :
    Ends I (modify f : StateT σ (Except ε) PUnit) Q E := h

theorem get_bind {f : σ → StateT σ (Except ε) β} {Q : β → σ → Prop}
    (h : ∀ s, I s → Ends (· = s) (f s) Q E) : Ends I (get >>= f) Q E :=
  fun s hs => h s hs s rfl

theorem ite {c : Prop} [Decidable c] {y : StateT σ (Except ε) α} (ht : c → Ends I x Q E)
    (hf : ¬c → Ends I y Q E) : Ends I (if c then x else y) Q E := by
  split
  · exact ht ‹_›
  · exact hf ‹_›

end Ends

/-! ## Lists of computations -/

/-- Runs the computation on the entries, in their order. -/
def runEach (f : β → StateT σ (Except ε) α) : List β → StateT σ (Except ε) (List α)
  | [] => pure []
  | b :: l => do
      let a ← f b
      let rest ← runEach f l
      pure (a :: rest)

theorem Ends.runEach {f : β → StateT σ (Except ε) α}
    {D : β → α → Prop} {l : List β} (h : ∀ b ∈ l, Ends I (f b) (fun a s => D b a ∧ I s) E) :
    Ends I (Lib.runEach f l) (fun as s => List.Forall₂ D l as ∧ I s) E := by
  induction l with
  | nil => exact Ends.pure fun s hs => ⟨List.Forall₂.nil, hs⟩
  | cons b l ih =>
    refine Ends.bind (h b List.mem_cons_self) fun a => ?_
    -- what is known of the first value is kept while the others are computed
    intro s hs
    obtain ⟨ha, hs⟩ := hs
    refine Ends.bind (ih fun c hc => h c (.tail _ hc)) (fun rest => ?_) s hs
    exact Ends.pure fun s hs => ⟨List.Forall₂.cons ha hs.1, hs.2⟩

/-- Replaces the error of a computation. -/
def mapError (wrap : ε → ε) (x : StateT σ (Except ε) α) : StateT σ (Except ε) α :=
  fun s => (x s).mapError wrap

theorem Ends.mapError {wrap : ε → ε} (h : Ends I x Q E) (hwrap : ∀ e, E e → E (wrap e)) :
    Ends I (Lib.mapError wrap x) Q E := by
  intro s hs
  have h := h s hs
  unfold Lib.mapError
  cases hrun : x s with
  | error e =>
    rw [hrun] at h
    exact hwrap e h
  | ok result =>
    rw [hrun] at h
    exact h

end MagnusPS5.Lib
