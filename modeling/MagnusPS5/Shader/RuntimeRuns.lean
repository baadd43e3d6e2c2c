/-
Runs of the evaluator (`SrtWalker.cpp`).

`evaluateWide_ends` is the rule for `EvaluateWide`. `Safe` collects what it asks for: a
condition on values that goes over to the values an instruction asks for, the errors that
these can fail with, and what is known of the results. Whatever its outcome, the evaluator
has left all instructions that it has entered when it returns a value.
-/
import MagnusPS5.Shader.RuntimeRecipes

namespace MagnusPS5.Shader

open Lib
open Function (update)

namespace Evaluators

variable (s : Evaluators) (clean c : Bool) (f : Evaluator → Evaluator)

@[simp] theorem active_update : (s.update clean f).active clean = f (s.active clean) := by
  cases clean <;> rfl

theorem active_update_of_ne (h : c ≠ clean) : (s.update clean f).active c = s.active c := by
  cases c <;> cases clean <;> first | rfl | exact absurd rfl h

end Evaluators

namespace RuntimeProgram

variable (P : RuntimeProgram)

/-- What is known of the value that an evaluator has found. -/
def Found (C : Bool → ℕ → BitVec 64 → Prop) (clean : Bool) (value : Value) (r : BitVec 64) : Prop :=
  match P.resolve value with
  | .inst i => C clean i r
  | immediate => evaluateImmediate immediate = .ok r

/-- The evaluators are in certain instructions, and what they have found is right. -/
structure Within (C : Bool → ℕ → BitVec 64 → Prop) (visiting : Bool → List ℕ) (s : Evaluators) :
    Prop where
  visiting : ∀ c, (s.active c).visiting = visiting c
  cache : ∀ c i r, (s.active c).cache.lookup i = some r → C c i r

/-- A condition on values under which an evaluation has results in `C` or errors in `E`. The
condition may depend on the fuel and on the instructions the evaluators are in. -/
structure Safe (R : SrtRuntime) (clean_flat_slots : List Bool) (C : Bool → ℕ → BitVec 64 → Prop)
    (E : EvalError → Prop) (Ready : ℕ → (Bool → List ℕ) → Bool → Value → Prop) : Prop where
  wrap : ∀ e, E e → E (.packedHalf e) ∧ E (.bufferWord e)
  fuel : ∀ visiting clean value, Ready 0 visiting clean value → E .unfinished
  immediate : ∀ fuel visiting clean value, Ready (fuel + 1) visiting clean value →
    (∀ i, P.resolve value ≠ .inst i) → ∀ e, evaluateImmediate (P.resolve value) = .error e → E e
  cyclic : ∀ fuel visiting clean value i, Ready (fuel + 1) visiting clean value →
    P.resolve value = .inst i → i ∈ visiting clean → E .cyclic
  operands : ∀ fuel visiting clean value i, Ready (fuel + 1) visiting clean value →
    P.resolve value = .inst i → i ∉ visiting clean → ∀ w ∈ (P.recipe i).operands,
      Ready fuel (update visiting clean (i :: visiting clean))
        (P.evaluatorFor i clean_flat_slots clean) w
  error : ∀ fuel visiting clean value i, Ready (fuel + 1) visiting clean value →
    P.resolve value = .inst i → ∀ args,
      List.Forall₂ (P.Found C (P.evaluatorFor i clean_flat_slots clean)) (P.recipe i).operands
        args →
      ∀ e, (P.recipe i).result R clean args = .error e → E e
  result : ∀ clean i args r,
    List.Forall₂ (P.Found C (P.evaluatorFor i clean_flat_slots clean)) (P.recipe i).operands args →
      (P.recipe i).result R clean args = .ok r → C clean i r

variable {P} {R : SrtRuntime} {clean_flat_slots : List Bool} {C : Bool → ℕ → BitVec 64 → Prop}
  {E : EvalError → Prop} {Ready : ℕ → (Bool → List ℕ) → Bool → Value → Prop}
variable {visiting : Bool → List ℕ} {clean : Bool} {i : ℕ}
  {s : Evaluators} {value : Value} {r : BitVec 64}

theorem Within.enter (h : Within C visiting s) :
    Within C (update visiting clean (i :: visiting clean))
      (s.update clean fun e => { e with visiting := i :: e.visiting }) where
  visiting c := by
    by_cases hc : c = clean
    · subst hc
      rw [Evaluators.active_update, Function.update_self, h.visiting]
    · rw [Evaluators.active_update_of_ne _ _ _ _ hc, Function.update_of_ne hc, h.visiting]
  cache c j r hr := by
    by_cases hc : c = clean
    · subst hc
      rw [Evaluators.active_update] at hr
      exact h.cache c j r hr
    · rw [Evaluators.active_update_of_ne _ _ _ _ hc] at hr
      exact h.cache c j r hr

theorem Within.leave {out : BitVec 64}
    (h : Within C (update visiting clean (i :: visiting clean)) s) (hout : C clean i out) :
    Within C visiting (s.update clean fun e =>
      { cache := (i, out) :: e.cache, visiting := e.visiting.tail }) where
  visiting c := by
    by_cases hc : c = clean
    · subst hc
      rw [Evaluators.active_update, h.visiting, Function.update_self, List.tail_cons]
    · rw [Evaluators.active_update_of_ne _ _ _ _ hc, h.visiting, Function.update_of_ne hc]
  cache c j r hr := by
    by_cases hc : c = clean
    · subst hc
      rw [Evaluators.active_update, List.lookup_cons] at hr
      split at hr
      next hj =>
        rw [← Option.some.inj hr, beq_iff_eq.mp hj]
        exact hout
      · exact h.cache c j r hr
    · rw [Evaluators.active_update_of_ne _ _ _ _ hc] at hr
      exact h.cache c j r hr

theorem found_inst (hi : P.resolve value = .inst i) : P.Found C clean value r ↔ C clean i r := by
  unfold Found
  rw [hi]

theorem found_immediate (hne : ∀ i, P.resolve value ≠ .inst i) :
    P.Found C clean value r ↔ evaluateImmediate (P.resolve value) = .ok r := by
  unfold Found
  split
  next i hi =>
    exact absurd hi (hne i)
  · rfl

/-- **The outcome of `EvaluateWide`.** -/
theorem evaluateWide_ends (h : P.Safe R clean_flat_slots C E Ready) {fuel : ℕ}
    (hready : Ready fuel visiting clean value) :
    Ends (Within C visiting) (P.evaluateWide R clean_flat_slots fuel clean value)
      (fun r s => P.Found C clean value r ∧ Within C visiting s) E := by
  induction fuel generalizing visiting clean value with
  | zero => exact .throw (h.fuel _ _ _ hready)
  | succ fuel ih =>
    unfold evaluateWide
    split
    next i hi =>
      simp only [found_inst hi]
      refine .get_bind fun s hs => ?_
      cases hcache : (s.active clean).cache.lookup i with
      | some r =>
        refine .pure fun s' hs' => ?_
        rw [hs']
        exact ⟨hs.cache clean i r hcache, hs⟩
      | none =>
        rw [hs.visiting]
        refine .ite (fun hmem => .throw (h.cyclic _ _ _ _ _ hready hi hmem)) fun hnew => ?_
        refine .bind (.modified
          (Q := fun _ => Within C (update visiting clean (i :: visiting clean)))
          fun s' hs' => ?_) fun _ => ?_
        · rw [hs']
          exact hs.enter
        refine .bind (evaluateInst_follows h.wrap
          (fun w hw => ih (h.operands _ _ _ _ _ hready hi hnew w hw))
          (h.error _ _ _ _ _ hready hi)) fun out => ?_
        rintro s ⟨⟨args, hargs, hout⟩, hs⟩
        have hfound := h.result clean i args out hargs hout
        exact ⟨hfound, hs.leave hfound⟩
    next hne =>
      refine ends_lift (fun r hr s hs => ?_) fun e he => h.immediate _ _ _ _ hready hne e he
      exact ⟨(found_immediate hne).mpr hr, hs⟩

end RuntimeProgram

end MagnusPS5.Shader
