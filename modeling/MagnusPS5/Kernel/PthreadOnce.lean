/-
`pthread_once` (`pthread.cpp`), of calls that pass a control word and a routine.

A call gives up `g_pthread_once_mutex` while the init routine runs, in `wait_for`, and while it
takes its pending signals. One step is what it does in between, or the end of the routine; a call
may take its next step at any time. A handler and the routine itself may make calls, so that every
call has a number of its own. `began` and `ended` count how often the routine has begun and ended.
-/
import Mathlib.Data.Int.Notation
import Mathlib.Tactic.Common

namespace MagnusPS5.Kernel.PthreadOnce

open Function (update update_self update_of_ne)

abbrev PTHREAD_ONCE_NEEDS_INIT : ℤ := 0
abbrev PTHREAD_ONCE_DONE_INIT : ℤ := 1
abbrev PTHREAD_ONCE_IN_PROGRESS : ℤ := 2
abbrev PTHREAD_ONCE_WAIT : ℤ := 3

inductive Result
  | ok
  | einval

/-- What a call is about to do. -/
inductive Pc
  | start
  | running
  | ran
  | waiting
  | dispatching
  | returned (result : Result)

structure State where
  state : ℤ
  calls : ℕ → Pc := fun _ => .start
  began : ℕ := 0
  ended : ℕ := 0

namespace State

def goto (s : State) (call : ℕ) (pc : Pc) : State := { s with calls := update s.calls call pc }

/-- The `switch`. -/
def look (s : State) (call : ℕ) : State :=
  if s.state = PTHREAD_ONCE_DONE_INIT then s.goto call (.returned .ok)
  else if s.state = PTHREAD_ONCE_NEEDS_INIT then
    { s with state := PTHREAD_ONCE_IN_PROGRESS, began := s.began + 1 }.goto call .running
  else if s.state = PTHREAD_ONCE_IN_PROGRESS ∨ s.state = PTHREAD_ONCE_WAIT then
    { s with state := PTHREAD_ONCE_WAIT }.goto call .waiting
  else s.goto call (.returned .einval)

/-- A step of a call. One that wakes up looks at the word before it takes its signals, and once
more after that. -/
def step (s : State) (call : ℕ) : State :=
  match s.calls call with
  | .start => s.look call
  | .running => { s with ended := s.ended + 1 }.goto call .ran
  | .ran => { s with state := PTHREAD_ONCE_DONE_INIT }.goto call (.returned .ok)
  | .waiting => if s.state = PTHREAD_ONCE_WAIT then s.goto call .dispatching else s.look call
  | .dispatching => if s.state = PTHREAD_ONCE_WAIT then s.goto call .waiting else s.look call
  | .returned _ => s

def run (steps : List ℕ) : State := steps.foldl step { state := PTHREAD_ONCE_NEEDS_INIT }

end State

open State

variable {s : State} {call : ℕ}

/-- The call sleeps, or takes its signals before it sleeps again. -/
def Pc.asleep (pc : Pc) : Prop := pc = .waiting ∨ pc = .dispatching

/-- The call runs the init routine, or has run it and not said so. -/
def Pc.inits (pc : Pc) : Prop := pc = .running ∨ pc = .ran

/-- **The invariant**, by the control word. -/
inductive Inv (s : State) : Prop
  | fresh (word : s.state = PTHREAD_ONCE_NEEDS_INIT) (calls : ∀ c, s.calls c = .start)
      (counts : s.began = 0 ∧ s.ended = 0)
  | busy (runner : ℕ) (word : s.state = PTHREAD_ONCE_IN_PROGRESS ∨ s.state = PTHREAD_ONCE_WAIT)
      (began : s.began = 1)
      (inits : s.calls runner = .running ∧ s.ended = 0 ∨ s.calls runner = .ran ∧ s.ended = 1)
      (others : ∀ c, c ≠ runner → s.calls c = .start ∨
        s.state = PTHREAD_ONCE_WAIT ∧ (s.calls c).asleep)
  | done (word : s.state = PTHREAD_ONCE_DONE_INIT) (counts : s.began = 1 ∧ s.ended = 1)
      (calls : ∀ c, ¬ (s.calls c).inits ∧ s.calls c ≠ .returned .einval)

theorem goto_self (h : s.calls call = pc) : s.goto call pc = s := by
  subst h
  simp [goto]

/-- Once the routine is done, a call returns. -/
theorem step_of_done (h : s.state = PTHREAD_ONCE_DONE_INIT) (hinits : ¬ (s.calls call).inits)
    (hresult : s.calls call ≠ .returned .einval) : s.step call = s.goto call (.returned .ok) := by
  unfold step
  cases hpc : s.calls call with
  | start => exact if_pos h
  | running => exact absurd (.inl hpc) hinits
  | ran => exact absurd (.inr hpc) hinits
  | waiting | dispatching =>
    dsimp only
    rw [if_neg (by rw [h]; decide)]
    exact if_pos h
  | returned result =>
    cases result with
    | ok => exact (goto_self hpc).symm
    | einval => exact absurd hpc hresult

/-- A call that does not run the routine sleeps while another one does. -/
theorem step_of_busy (word : s.state = PTHREAD_ONCE_IN_PROGRESS ∨ s.state = PTHREAD_ONCE_WAIT)
    (h : s.calls call = .start ∨ s.state = PTHREAD_ONCE_WAIT ∧ (s.calls call).asleep) :
    ∃ pc : Pc, pc.asleep ∧ s.step call = { s with state := PTHREAD_ONCE_WAIT }.goto call pc := by
  rcases h with hpc | ⟨hword, hpc⟩
  · refine ⟨.waiting, .inl rfl, ?_⟩
    rw [step, hpc]
    dsimp only
    rw [look, if_neg, if_neg, if_pos word]
    all_goals rcases word with word | word <;> rw [word] <;> decide
  · rw [← hword]
    rcases hpc with hpc | hpc
    · refine ⟨.dispatching, .inr rfl, ?_⟩
      rw [step, hpc]
      exact if_pos hword
    · refine ⟨.waiting, .inl rfl, ?_⟩
      rw [step, hpc]
      exact if_pos hword

theorem Inv.step (h : Inv s) (call : ℕ) : Inv (s.step call) := by
  cases h with
  | fresh word calls counts =>
    have hstep : s.step call = { s with
        state := PTHREAD_ONCE_IN_PROGRESS, began := s.began + 1 }.goto call .running := by
      rw [State.step, calls call]
      exact (if_neg (by rw [word]; decide)).trans (if_pos word)
    rw [hstep]
    refine .busy call (.inl rfl) (congrArg _ counts.1) (.inl ⟨update_self .., counts.2⟩) ?_
    exact fun c hc => .inl ((update_of_ne hc ..).trans (calls c))
  | busy runner word began inits others =>
    by_cases hcall : call = runner
    · subst hcall
      rcases inits with ⟨hpc, hended⟩ | ⟨hpc, hended⟩
      · have hstep : s.step call = { s with ended := s.ended + 1 }.goto call .ran := by
          rw [State.step, hpc]
        rw [hstep]
        refine .busy call word began (.inr ⟨update_self .., congrArg _ hended⟩) fun c hc => ?_
        simpa only [goto, update_of_ne hc] using others c hc
      · have hstep : s.step call =
            { s with state := PTHREAD_ONCE_DONE_INIT }.goto call (.returned .ok) := by
          rw [State.step, hpc]
        rw [hstep]
        refine .done rfl ⟨began, hended⟩ fun c => ?_
        by_cases hc : c = call
        · simp [goto, hc, Pc.inits]
        · simp only [goto, update_of_ne hc]
          rcases others c hc with hpc | ⟨-, hpc | hpc⟩ <;> simp [hpc, Pc.inits]
    · -- another call goes to sleep, or on with it
      obtain ⟨pc, hpc, hstep⟩ := step_of_busy word (others call hcall)
      rw [hstep]
      refine .busy runner (.inr rfl) began ?_ fun c hc => ?_
      · simpa only [goto, update_of_ne (Ne.symm hcall)] using inits
      · by_cases hc' : c = call
        · subst hc'
          exact .inr ⟨rfl, by simpa only [goto, update_self] using hpc⟩
        · simp only [goto, update_of_ne hc']
          exact (others c hc).imp_right fun h => ⟨trivial, h.2⟩
  | done word counts calls =>
    rw [step_of_done word (calls call).1 (calls call).2]
    refine .done word counts fun c => ?_
    by_cases hc : c = call
    · simp [goto, hc, Pc.inits]
    · simpa only [goto, update_of_ne hc] using calls c

theorem inv_run (steps : List ℕ) : Inv (run steps) :=
  steps.foldlRecOn State.step (.fresh rfl (fun _ => rfl) ⟨rfl, rfl⟩) fun _ h call _ => h.step call

/-- **`pthread_once` runs the init routine once.** In every interleaving of calls on a fresh control
word the routine begins at most once, no call fails or returns before it has ended, no call sleeps
with nobody to end it, and once it is done the next step of every call is to return. -/
theorem pthread_once_runs_once (steps : List ℕ) : let s := run steps
    s.began ≤ 1 ∧
    (∀ call result, s.calls call = .returned result → result = .ok ∧ s.ended = 1) ∧
    (∀ call, (s.calls call).asleep →
      s.state = PTHREAD_ONCE_DONE_INIT ∨ ∃ runner, (s.calls runner).inits) ∧
    (s.state = PTHREAD_ONCE_DONE_INIT → ∀ call, (s.step call).calls call = .returned .ok) := by
  intro s
  cases inv_run steps with
  | fresh word calls counts =>
    refine ⟨Nat.le_of_lt_succ (counts.1 ▸ Nat.two_pos), fun call result h => ?_, fun call h => ?_,
      fun hdone => ?_⟩
    · cases (calls call).symm.trans h
    · rcases h with h | h <;> cases (calls call).symm.trans h
    · cases word.symm.trans hdone
  | busy runner word began inits others =>
    refine ⟨Nat.le_of_eq began, fun call result h => ?_, fun _ _ => .inr ⟨runner, ?_⟩, fun hdone => ?_⟩
    · by_cases hcall : call = runner
      · subst hcall
        rcases inits with ⟨hpc, -⟩ | ⟨hpc, -⟩ <;> cases hpc.symm.trans h
      · rcases others call hcall with hpc | ⟨-, hpc | hpc⟩ <;> cases hpc.symm.trans h
    · exact inits.imp And.left And.left
    · rcases word with word | word <;> cases word.symm.trans hdone
  | done word counts calls =>
    refine ⟨Nat.le_of_eq counts.1, fun call result h => ?_, fun _ _ => .inl word, fun _ call => ?_⟩
    · cases result with
      | ok => exact ⟨rfl, counts.2⟩
      | einval => exact absurd h (calls call).2
    · rw [step_of_done word (calls call).1 (calls call).2]
      exact update_self ..

end MagnusPS5.Kernel.PthreadOnce
