/-
Agents that take steps on one shared state, and what each of them has done to it.

A log lists the steps with the state on both sides. `net f agent log` is what the steps of
one agent have added to the measure `f` of the state, whatever the others did in between; a
measure that the agents share is the sum of what each of them is entitled to.
-/
import Mathlib.Algebra.BigOperators.Group.List.Basic
import Mathlib.Algebra.Order.Ring.Int

namespace MagnusPS5.Lib.Ledger

open List

variable {S α : Type*}

/-- One step: who took it, and the state before and after it. -/
structure Entry (S : Type*) where
  agent : ℕ
  before : S
  after : S

/-- What the steps of one agent have added to a measure. -/
def net (f : S → ℤ) (agent : ℕ) (log : List (Entry S)) : ℤ :=
  ((log.filter (fun entry => entry.agent = agent)).map
    (fun entry => f entry.after - f entry.before)).sum

theorem net_cons_self (f : S → ℤ) (agent : ℕ) (before after : S) (log : List (Entry S)) :
    net f agent ({ agent := agent, before := before, after := after } :: log)
      = f after - f before + net f agent log := by
  simp [net]

theorem net_cons_of_ne (f : S → ℤ) {agent other : ℕ} (h : other ≠ agent) (before after : S)
    (log : List (Entry S)) :
    net f agent ({ agent := other, before := before, after := after } :: log)
      = net f agent log := by
  simp [net, h]

theorem net_of_fresh (f : S → ℤ) {agent : ℕ} {log : List (Entry S)}
    (h : ∀ entry ∈ log, entry.agent < agent) : net f agent log = 0 := by
  have hnone : log.filter (fun entry => entry.agent = agent) = [] := by
    rw [filter_eq_nil_iff]
    intro entry hentry
    have := h entry hentry
    simp only [decide_eq_true_eq]
    omega
  rw [net, hnone, map_nil, sum_nil]

theorem sum_map_set (f : α → ℤ) {agents : List α} {i : ℕ} {old : α} (new : α)
    (h : agents[i]? = some old) :
    ((agents.set i new).map f).sum = (agents.map f).sum - f old + f new := by
  induction agents generalizing i with
  | nil => simp at h
  | cons agent rest ih =>
    cases i with
    | zero =>
      rw [getElem?_cons_zero, Option.some.injEq] at h
      rw [set_cons_zero, map_cons, map_cons, sum_cons, sum_cons, h]
      omega
    | succ i =>
      rw [getElem?_cons_succ] at h
      rw [set_cons_succ, map_cons, map_cons, sum_cons, sum_cons, ih h]
      omega

theorem countP_eq_sum (p : α → Bool) (agents : List α) :
    (agents.countP p : ℤ) = (agents.map (fun agent => if p agent then (1 : ℤ) else 0)).sum := by
  induction agents with
  | nil => simp
  | cons agent rest ih =>
    rw [countP_cons, map_cons, sum_cons, ← ih]
    split <;> push_cast <;> omega

end MagnusPS5.Lib.Ledger
