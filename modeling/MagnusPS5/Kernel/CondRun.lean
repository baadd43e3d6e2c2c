/-
Wake-ups and mutexes over all interleavings of waits, signals, broadcasts and handlers.

`stage` says where a wait stands. `Inv` ties the lists of waiters to the waits, in the order in
which they began, and the owner and the count of a mutex to the locks that its thread has taken.
`Moves` lists what one step of a thread can do, and `Woken` what a signal or a broadcast does.

A handler that runs inside a wait shares `cond_sequence` with it: `cond_wakeups_nested` is the
run in which a signal for the one wait releases the other. `Op.Fits` are the steps without that,
and `cond_wakeups` is about the runs of such steps.
-/
import MagnusPS5.Kernel.Cond
import Mathlib.Data.List.Induction

namespace MagnusPS5.Kernel.Cond

open Function (update)
open Rwlock (UINT32_MAX)
open List Function Option State PthreadMutexPrivate Nat

/-! ## Where a wait stands -/

/-- What has become of a wait that has not returned. -/
inductive Stage
  | waits
  | ended (result : Result)
  deriving DecidableEq

/-- It is over once it is ready. -/
def Stage.ofReady : Bool → Stage
  | true => .ended .ok
  | false => .waits

namespace Pc

/-- The wait of a context that may sleep or poll. -/
def sleeping : Pc → Option Wait
  | .asleep w => some w
  | .polling w => some w
  | _ => none

/-- The wait of a context, with what has become of it. -/
def stage (pc : Pc) (ready : Wait → Bool) : Option (Wait × Stage) :=
  match pc with
  | .asleep w => some (w, .ofReady (ready w))
  | .polling w => some (w, .ofReady (ready w))
  | .relocking w result _ => some (w, .ended result)
  | .restoring w result => some (w, .ended result)
  | _ => none

end Pc

def stage (σ : State) (k : Context) : Option (Wait × Stage) :=
  (σ.pc k).stage (σ.ready k.thread)

/-- The context waits and was not released. -/
def Waiting (σ : State) (k : Context) (w : Wait) : Prop := stage σ k = some (w, .waits)

/-- The wait of the context was released and has not returned. -/
def Released (σ : State) (k : Context) (w : Wait) : Prop := stage σ k = some (w, .ended .ok)

/-- The wait of the context has timed out and not returned. -/
def TimedOut (σ : State) (k : Context) (w : Wait) : Prop :=
  stage σ k = some (w, .ended .etimedout)

/-- What a step releases. -/
def newlyReleased (σ τ : State) : Set Context := {k | ∃ w, Released τ k w ∧ ¬ Released σ k w}

/-- The thread has locked the mutex, and it has not given it away to wait. -/
def Holds (σ : State) (t m : ℕ) : Prop := 0 < σ.held m t

/-! ## The runs in question -/

namespace State

/-- All waits of the thread that go on are on this condition variable, and none of its waits has
read the next value of its sequence. -/
def Sole (σ : State) (c t : ℕ) : Prop :=
  ∀ level ≤ σ.handlers t, ∀ w ∈ (σ.pc ⟨t, level⟩).sleeping,
    (σ.ready t w = false → w.cond = c) ∧ w.thread_sequence ≠ (σ.thread t).cond_sequence + 1

/-- What is asked of a step. No thread begins to wait on a condition variable that it waits on;
no wait that takes its mutex back finds it locked by its own thread; a signal takes a thread that
waits nowhere else; and no sequence comes round to the value that a wait has read. -/
def Op.Fits (σ : State) : Op → Prop
  | .advance t _ =>
    match σ.pc (σ.current t) with
    | .entering w => t ∉ (σ.cond w.cond).waiters
    | .relocking w _ _ => (σ.mutex w.mutex).owner ≠ some t
    | _ => True
  | .signal c => ∀ t ∈ (σ.cond c).waiters.head?, σ.Sole c t
  | .signalto c t => t ∈ (σ.cond c).waiters → σ.Sole c t
  | .broadcast c => ∀ k w, (σ.pc k).sleeping = some w → w.cond = c →
    w.sequence ≠ (σ.cond c).sequence + 1
  | _ => True

instance (σ : State) (c t : ℕ) : Decidable (σ.Sole c t) :=
  inferInstanceAs (Decidable (∀ level ≤ σ.handlers t, ∀ w ∈ (σ.pc ⟨t, level⟩).sleeping, _))

instance (σ : State) (t : ℕ) (expired : Bool) : Decidable ((Op.advance t expired).Fits σ) := by
  unfold Op.Fits
  dsimp only
  split <;> infer_instance

instance (σ : State) (c : ℕ) : Decidable ((Op.signal c).Fits σ) :=
  inferInstanceAs (Decidable (∀ t ∈ (σ.cond c).waiters.head?, σ.Sole c t))

/-- Every step of the run fits. -/
def Fits (σ : State) : List Op → Prop
  | [] => True
  | op :: ops => op.Fits σ ∧ (σ.step op).Fits ops

end State

/-! ## What is said of a step -/

/-- What one step makes of the wait of a context. -/
inductive Turn (σ τ : State) (k : Context) : Prop
  | same (stage : stage τ k = stage σ k)
      (waited : ∀ w result, τ.pc k = .waited w result → σ.pc k = .waited w result)
  | began {w₀ w : Wait} (before : σ.pc k = .entering w₀)
      (same : w.cond = w₀.cond ∧ w.mutex = w₀.mutex ∧ w.depth = w₀.depth)
      (since : w.since = σ.time) (after : Waiting τ k w)
  /-- A wait that times out at once. -/
  | late {w₀ w : Wait} (before : σ.pc k = .entering w₀)
      (same : w.cond = w₀.cond ∧ w.mutex = w₀.mutex ∧ w.depth = w₀.depth)
      (after : TimedOut τ k w) (unlisted : k.thread ∉ (τ.cond w.cond).waiters)
  | released {w : Wait} (before : Waiting σ k w) (after : Released τ k w)
  | timedOut {w : Wait} (before : Waiting σ k w) (after : TimedOut τ k w)
      (unlisted : k.thread ∉ (τ.cond w.cond).waiters)
  /-- A wait returns what became of it, and owns its mutex as it did before. -/
  | returned {w : Wait} {result : Result} (before : stage σ k = some (w, .ended result))
      (ended : result = .ok ∨ result = .etimedout) (after : τ.pc k = .waited w result)
      (owner : (τ.mutex w.mutex).owner = some k.thread)
      (count : (τ.mutex w.mutex).count = w.depth)
      (unlisted : k.thread ∉ (τ.cond w.cond).waiters)

/-- The next section of a wait that was released: it goes on towards its return, unless another
thread has its mutex. -/
def Progress (σ τ : State) (k : Context) (w : Wait) : Prop :=
  ((σ.pc k).sleeping = some w ∧ τ.pc k = .relocking w .ok false) ∨
    ((∃ looping, σ.pc k = .relocking w .ok looping) ∧
      (τ.pc k = .restoring w .ok ∨
        ∃ u, u ≠ k.thread ∧ (σ.mutex w.mutex).owner = some u)) ∨
    (σ.pc k = .restoring w .ok ∧ τ.pc k = .waited w .ok)

/-- **The law of wake-ups**, for a step from a state. -/
structure Lawful (σ : State) (op : State.Op) : Prop where
  /-- A mutex has at most one owner. -/
  owner : ∀ m t u, Holds σ t m → Holds σ u m → t = u
  /-- A signal releases the wait that has lasted longest, and no other one. -/
  signal : ∀ c, op = .signal c → (∃ k w, Waiting σ k w ∧ w.cond = c) →
    ∃ k w, Waiting σ k w ∧ w.cond = c ∧ w.since < σ.time ∧
      (∀ l v, Waiting σ l v → v.cond = c → l ≠ k → w.since < v.since) ∧
      newlyReleased σ (σ.step op) = {k}
  signal_nobody : ∀ c, op = .signal c → (∀ k w, Waiting σ k w → w.cond ≠ c) →
    newlyReleased σ (σ.step op) = ∅
  /-- A signal to a thread releases the one wait of it, if there is one. -/
  signalto : ∀ c t, op = .signalto c t →
    newlyReleased σ (σ.step op) = {k | k.thread = t ∧ ∃ w, Waiting σ k w ∧ w.cond = c} ∧
      (newlyReleased σ (σ.step op)).Subsingleton
  broadcast : ∀ c, op = .broadcast c →
    newlyReleased σ (σ.step op) = {k | ∃ w, Waiting σ k w ∧ w.cond = c}
  /-- No other step releases a wait. -/
  others : (∀ c, op ≠ .signal c ∧ op ≠ .broadcast c ∧ ∀ t, op ≠ .signalto c t) →
    newlyReleased σ (σ.step op) = ∅
  progress : ∀ t expired w, op = .advance t expired → Released σ (σ.current t) w →
    Progress σ (σ.step op) (σ.current t) w
  /-- The lists hold the waits that were not released. -/
  listed : ∀ c t, t ∈ (σ.cond c).waiters ↔ ∃ k w, k.thread = t ∧ Waiting σ k w ∧ w.cond = c
  /-- A call that goes on to wait owns its mutex, and `depth` is the count of it. -/
  entering : ∀ k w, σ.pc k = .entering w →
    (σ.mutex w.mutex).owner = some k.thread ∧ w.depth = (σ.mutex w.mutex).count
  turns : ∀ k, Turn σ (σ.step op) k

/-! ## Signals and broadcasts -/

variable {σ τ : State} {t u m c : ℕ} {k l : Context} {w v : Wait} {result : Result} {pc : Pc}

variable {ρ : State} {next : PthreadMutexPrivate} {waiters : List ℕ} {s : Stage} {count : ℕ}
  {expired looping : Bool} {op : State.Op}

/-- What a signal or a broadcast leaves alone. -/
structure Frame (σ τ : State) : Prop where
  mutex : τ.mutex = σ.mutex
  pc : τ.pc = σ.pc
  handlers : τ.handlers = σ.handlers
  held : τ.held = σ.held
  time : τ.time = σ.time

theorem Frame.refl (σ : State) : Frame σ σ := ⟨rfl, rfl, rfl, rfl, rfl⟩

theorem Frame.trans (h : Frame σ τ) (h' : Frame τ ρ) : Frame σ ρ :=
  ⟨h'.mutex.trans h.mutex, h'.pc.trans h.pc, h'.handlers.trans h.handlers, h'.held.trans h.held,
    h'.time.trans h.time⟩

namespace State

/-- The states differ at most in `waiting_cond`, which no step looks at but to reset it. -/
structure Alike (σ τ : State) : Prop extends Frame σ τ where
  cond : τ.cond = σ.cond
  cond_sequence : ∀ u, (τ.thread u).cond_sequence = (σ.thread u).cond_sequence

theorem Alike.refl (σ : State) : Alike σ σ := ⟨.refl σ, rfl, fun _ => rfl⟩

theorem Alike.trans (h : Alike σ τ) (h' : Alike τ ρ) : Alike σ ρ :=
  ⟨h.toFrame.trans h'.toFrame, h'.cond.trans h.cond, fun u =>
    (h'.cond_sequence u).trans (h.cond_sequence u)⟩

theorem alike_setWaitingCond (σ : State) (t : ℕ) (waiting_cond : Option ℕ) :
    Alike σ (σ.setWaitingCond t waiting_cond) := by
  refine ⟨⟨rfl, rfl, rfl, rfl, rfl⟩, rfl, fun u => ?_⟩
  by_cases h : u = t
  · simp [setWaitingCond, h]
  · simp [setWaitingCond, h]

theorem alike_leaveCond (σ : State) (c t : ℕ) : Alike σ (σ.leaveCond c t) := by
  unfold leaveCond
  split
  · exact alike_setWaitingCond σ t none
  · exact .refl σ

theorem alike_foldl_leaveCond (σ : State) (c : ℕ) (waiters : List ℕ) :
    Alike σ (waiters.foldl (fun σ t => σ.leaveCond c t) σ) := by
  induction waiters generalizing σ with
  | nil => exact .refl σ
  | cons u rest ih => exact (alike_leaveCond σ c u).trans (ih _)

/-- **CondRemoveWaiter** takes the thread from the list. -/
theorem alike_condRemoveWaiter (σ : State) (c t : ℕ) :
    Alike (σ.setWaiters c ((σ.cond c).waiters.erase t)) (σ.condRemoveWaiter c t) := by
  unfold condRemoveWaiter
  split
  · exact alike_leaveCond _ c t
  next hnot =>
    have hsame : σ.setWaiters c ((σ.cond c).waiters.erase t) = σ := by
      rw [erase_of_not_mem hnot, setWaiters, update_eq_self]
    rw [hsame]
    exact .refl σ

end State

namespace State

/-- **CondWakeWaiter** takes one thread from the list and counts a signal for it, or does
nothing. -/
theorem condWakeWaiter_cases (σ : State) (c : ℕ) (thread : Option ℕ) :
    (∃ t, thread.or (σ.cond c).waiters.head? = some t ∧ t ∈ (σ.cond c).waiters ∧
      Frame σ (σ.condWakeWaiter c thread) ∧
      (σ.condWakeWaiter c thread).cond = update σ.cond c
        { σ.cond c with waiters := (σ.cond c).waiters.erase t } ∧
      ∀ u, ((σ.condWakeWaiter c thread).thread u).cond_sequence
        = if u = t then (σ.thread t).cond_sequence + 1 else (σ.thread u).cond_sequence) ∨
    ((∀ t, thread.or (σ.cond c).waiters.head? = some t → t ∉ (σ.cond c).waiters) ∧
      σ.condWakeWaiter c thread = σ) := by
  unfold condWakeWaiter
  cases hthread : thread.or (σ.cond c).waiters.head? with
  | none => exact .inr ⟨by simp, rfl⟩
  | some t =>
    by_cases hmem : t ∈ (σ.cond c).waiters
    · left
      have h := alike_leaveCond (σ.setWaiters c ((σ.cond c).waiters.erase t)) c t
      simp only [if_pos hmem]
      refine ⟨t, rfl, hmem, ⟨h.mutex, h.pc, h.handlers, h.held, h.time⟩, h.cond, fun u => ?_⟩
      have hsame : ∀ u, (((σ.setWaiters c ((σ.cond c).waiters.erase t)).leaveCond c t).thread
          u).cond_sequence = (σ.thread u).cond_sequence := h.cond_sequence
      by_cases hu : u = t
      · simp [countSignal, hu, hsame]
      · simp [countSignal, hu, hsame]
    · right
      refine ⟨fun u hu => ?_, by simp only [if_neg hmem]⟩
      rwa [← some.inj hu]

/-- **PthreadCondBroadcast** clears the list and counts a broadcast, or does nothing. -/
theorem broadcast_cases (σ : State) (c : ℕ) :
    (Frame σ (σ.broadcast c) ∧
      (σ.broadcast c).cond = update σ.cond c
        { sequence := (σ.cond c).sequence + 1, waiters := [] } ∧
      ∀ u, ((σ.broadcast c).thread u).cond_sequence = (σ.thread u).cond_sequence) ∨
    (σ.cond c).waiters = [] ∧ σ.broadcast c = σ := by
  unfold broadcast
  by_cases hempty : (σ.cond c).waiters = []
  · exact .inr ⟨hempty, by rw [hempty]; rfl⟩
  · left
    rw [if_neg (by simpa using hempty), condClearWaiters]
    have h := alike_foldl_leaveCond (σ.countBroadcast c) c ((σ.countBroadcast c).cond c).waiters
    refine ⟨⟨h.mutex, h.pc, h.handlers, h.held, h.time⟩, ?_, h.cond_sequence⟩
    rw [setWaiters, h.cond]
    simp [countBroadcast]

end State

/-! ## Mutexes and the locks of a thread -/

/-- The owner of a mutex is the thread that holds it, as often as it has locked it. -/
structure Owned (mutex : PthreadMutexPrivate) (held : ℕ → ℕ) : Prop where
  owner : ∀ t, mutex.owner = some t ↔ 0 < held t
  count : ∀ t, mutex.owner = some t → mutex.count = held t
  simple : mutex.type ≠ 2 → ∀ t, held t ≤ 1

section

variable {mutex : PthreadMutexPrivate} {held : ℕ → ℕ} {n : ℕ}

/-- The mutex is free or the thread's own. -/
def PthreadMutexPrivate.open (mutex : PthreadMutexPrivate) (t : ℕ) : Prop :=
  mutex.owner = none ∨ mutex.owner = some t

/-- **A thread changes its locks of a mutex**, which is free or its own. -/
theorem Owned.set (h : Owned mutex held) (hopen : mutex.open t)
    (howner : next.owner = if 0 < n then some t else none) (hcount : 0 < n → next.count = n)
    (htype : next.type = mutex.type) (hsimple : mutex.type ≠ 2 → n ≤ 1) :
    Owned next (update held t n) where
  owner u := by
    by_cases hu : u = t
    · rw [hu, update_self, howner]
      simp
    · have hfree : ¬ 0 < held u := by
        rw [← h.owner]
        rcases hopen with hnone | hself
        · simp [hnone]
        · simp [hself, Ne.symm hu]
      rw [update_of_ne hu, howner]
      split_ifs <;> simp [Ne.symm hu, hfree]
  count u hu := by
    rw [howner] at hu
    split_ifs at hu with hn
    rw [← some.inj hu, update_self, hcount hn]
  simple htwo u := by
    rw [htype] at htwo
    by_cases hu : u = t
    · rw [hu, update_self]
      exact hsimple htwo
    · rw [update_of_ne hu]
      exact h.simple htwo u

/-- The mutex once the thread has locked it one more time. -/
def PthreadMutexPrivate.locked (mutex : PthreadMutexPrivate) (self : ℕ) : PthreadMutexPrivate :=
  { mutex with
    owner := some self
    count := if mutex.owner = none then 1 else mutex.count + 1 }

/-- The thread may lock the mutex. -/
def PthreadMutexPrivate.available (mutex : PthreadMutexPrivate) (self : ℕ) : Prop :=
  mutex.owner = none ∨ mutex.owner = some self ∧ mutex.type = 2

theorem Owned.held_eq_zero (h : Owned mutex held) (hnone : mutex.owner = none) (u : ℕ) :
    held u = 0 := by
  have := h.owner u
  simp only [hnone, reduceCtorEq, false_iff, not_lt, le_zero_eq] at this
  exact this

theorem Owned.locked (h : Owned mutex held) (havailable : mutex.available t) :
    Owned (mutex.locked t) (update held t (held t + 1)) := by
  have hopen : mutex.open t := havailable.imp_right And.left
  refine h.set hopen (by simp [PthreadMutexPrivate.locked]) (fun _ => ?_) rfl fun htwo => ?_
  · unfold PthreadMutexPrivate.locked
    rcases havailable with hnone | ⟨hself, -⟩
    · simp [hnone, h.held_eq_zero hnone]
    · simp [hself, h.count t hself]
  · rcases havailable with hnone | ⟨-, htype⟩
    · simp [h.held_eq_zero hnone]
    · exact absurd htype htwo

/-- The mutex once the thread has unlocked it. -/
def PthreadMutexPrivate.unlocked (mutex : PthreadMutexPrivate) : PthreadMutexPrivate :=
  if mutex.type = 2 ∧ 1 < mutex.count then { mutex with count := mutex.count - 1 }
  else { mutex with owner := none, count := 0 }

theorem Owned.unlocked (h : Owned mutex held) (howner : mutex.owner = some t) :
    Owned mutex.unlocked (update held t (held t - 1)) := by
  have hcount := h.count t howner
  have hsimple := h.simple
  refine h.set (.inr howner) ?_ ?_ ?_ fun htwo => ?_
  · unfold PthreadMutexPrivate.unlocked
    split_ifs with hmany hpos hpos
    · exact howner
    · omega
    · -- the last lock is given back
      by_cases htwo : mutex.type = 2
      · omega
      · have := hsimple htwo t
        omega
    · rfl
  · unfold PthreadMutexPrivate.unlocked
    split_ifs with hmany <;> intro hpos
    · dsimp only
      omega
    · by_cases htwo : mutex.type = 2
      · omega
      · have := hsimple htwo t
        omega
  · unfold PthreadMutexPrivate.unlocked
    split_ifs <;> rfl
  · have := hsimple htwo t
    omega

variable (mutex) (self : ℕ)

/-- One pass of `NativeMutexLock`. -/
theorem nativeMutexLock_cases (timeout_us : Option ℕ) (looping expired : Bool) :
    (mutex.available self ∧ nativeMutexLock mutex self timeout_us looping expired
      = (mutex.locked self, some .ok)) ∨
    (mutex.owner ≠ none ∧
      (nativeMutexLock mutex self timeout_us looping expired = (mutex, none) ∨
        (timeout_us = none → looping = false ∧ mutex.owner = some self) ∧ ∃ result, result ≠ .ok ∧
          nativeMutexLock mutex self timeout_us looping expired = (mutex, some result))) := by
  unfold nativeMutexLock
  by_cases hself : looping = false ∧ mutex.owner = some self
  · rw [if_pos hself]
    have howner : mutex.owner ≠ none := by simp [hself.2]
    split_ifs with htype hmax htimeout
    · exact .inr ⟨howner, .inr ⟨fun _ => hself, .eagain, by simp, rfl⟩⟩
    · exact .inl ⟨.inr ⟨hself.2, htype⟩, by simp [PthreadMutexPrivate.locked, hself]⟩
    · exact .inr ⟨howner, .inr ⟨fun _ => hself, .etimedout, by simp, rfl⟩⟩
    · exact .inr ⟨howner, .inr ⟨fun _ => hself, .edeadlk, by simp, rfl⟩⟩
  · rw [if_neg hself]
    by_cases hnone : mutex.owner = none
    · rw [if_pos hnone]
      exact .inl ⟨.inl hnone, by simp [PthreadMutexPrivate.locked, hnone]⟩
    · rw [if_neg hnone]
      refine .inr ⟨hnone, ?_⟩
      split_ifs with hlate
      · refine .inr ⟨fun hforever => ?_, .etimedout, by simp, rfl⟩
        simp [hforever] at hlate
      · exact .inl rfl

theorem nativeMutexTrylock_cases :
    (mutex.available self ∧ nativeMutexTrylock mutex self = (mutex.locked self, .ok)) ∨
    ∃ result, result ≠ .ok ∧ nativeMutexTrylock mutex self = (mutex, result) := by
  unfold nativeMutexTrylock
  split_ifs with hself htype hmax hnone
  · exact .inr ⟨.eagain, by simp, rfl⟩
  · exact .inl ⟨.inr ⟨hself, htype⟩, by simp [PthreadMutexPrivate.locked, hself]⟩
  · exact .inr ⟨.ebusy, by simp, rfl⟩
  · exact .inl ⟨.inl hnone, by simp [PthreadMutexPrivate.locked, hnone]⟩
  · exact .inr ⟨.ebusy, by simp, rfl⟩

theorem nativeMutexUnlock_cases :
    (mutex.owner = some self ∧ nativeMutexUnlock mutex self = (mutex.unlocked, .ok)) ∨
    nativeMutexUnlock mutex self = (mutex, .eperm) := by
  unfold nativeMutexUnlock PthreadMutexPrivate.unlocked
  by_cases hself : mutex.owner = some self
  · rw [if_pos hself]
    left
    split <;> exact ⟨hself, rfl⟩
  · rw [if_neg hself]
    exact .inr rfl

end

/-! ## The invariant -/

/-- The wait keeps the count of its mutex. -/
structure Due (σ : State) (w : Wait) : Prop where
  depth : w.recurse = w.depth
  pos : 0 < w.recurse
  simple : (σ.mutex w.mutex).type ≠ 2 → w.recurse ≤ 1

/-- What a context knows of its wait and of the mutex of it. -/
def Sound (σ : State) (k : Context) : Prop :=
  match σ.pc k with
  | .entering w => (σ.mutex w.mutex).owner = some k.thread ∧ w.depth = (σ.mutex w.mutex).count
  | .asleep w => Due σ w
  | .polling w => Due σ w
  | .relocking w result _ => Due σ w ∧ (result = .ok ∨ result = .etimedout)
  | .restoring w result =>
    Due σ w ∧ (result = .ok ∨ result = .etimedout) ∧ (σ.mutex w.mutex).owner = some k.thread
  | _ => True

/-- A list of waiters holds the threads of the waits `W`, in the order in which these began. -/
structure Queued (waiters : List ℕ) (W : Context → Wait → Prop) : Prop where
  mem : ∀ t, t ∈ waiters ↔ ∃ k w, k.thread = t ∧ W k w
  ordered : waiters.Pairwise fun t u => ∀ k l w v, k.thread = t → l.thread = u → W k w → W l v →
    w.since < v.since

/-- The invariant of the runs of steps that fit. -/
structure Inv (σ : State) : Prop where
  owned : ∀ m, Owned (σ.mutex m) (σ.held m)
  sound : ∀ k, Sound σ k
  /-- Contexts that are not there yet. -/
  above : ∀ k, σ.handlers k.thread < k.level → σ.pc k = .idle
  /-- Contexts that a handler interrupts. -/
  below : ∀ k, k.level < σ.handlers k.thread → State.interruptible (σ.pc k) = true
  queued : ∀ c, Queued (σ.cond c).waiters fun k w => Waiting σ k w ∧ w.cond = c
  since : ∀ k w, Waiting σ k w → w.since < σ.time
  /-- The waits inside a wait that goes on are on other condition variables. -/
  nested : ∀ k l w v s, k.thread = l.thread → k.level < l.level → Waiting σ k w →
    stage σ l = some (v, s) → w.cond ≠ v.cond

namespace Queued

variable {W W' : Context → Wait → Prop} (h : Queued waiters W)

include h

theorem nodup : waiters.Nodup := by
  refine h.ordered.imp_of_mem fun {t u} ht _ hlt heq => ?_
  obtain ⟨k, w, hk, hw⟩ := (h.mem t).mp ht
  exact lt_irrefl _ (hlt k k w w hk (hk.trans heq) hw hw)

theorem congr (hW : ∀ k w, W' k w ↔ W k w) : Queued waiters W' := by
  obtain rfl : W' = W := funext fun k => funext fun w => propext (hW k w)
  exact h

theorem erase (hW : ∀ k w, W' k w ↔ W k w ∧ k.thread ≠ t) : Queued (waiters.erase t) W' where
  mem u := by
    rw [h.nodup.mem_erase_iff, h.mem]
    constructor
    · rintro ⟨hu, k, w, rfl, hw⟩
      exact ⟨k, w, rfl, (hW k w).mpr ⟨hw, hu⟩⟩
    · rintro ⟨k, w, rfl, hw⟩
      obtain ⟨hold, hne⟩ := (hW k w).mp hw
      exact ⟨hne, k, w, rfl, hold⟩
  ordered := (h.ordered.sublist erase_sublist).imp fun hlt k l w v hk hl hw hv =>
    hlt k l w v hk hl ((hW k w).mp hw).1 ((hW l v).mp hv).1

theorem append (hnew : k.thread ∉ waiters) (hW : ∀ l v, W' l v ↔ W l v ∨ l = k ∧ v = w)
    (hsince : ∀ l v, W l v → v.since < w.since) : Queued (waiters ++ [k.thread]) W' where
  mem u := by
    rw [mem_append, mem_singleton, h.mem]
    constructor
    · rintro (⟨l, v, hl, hv⟩ | rfl)
      · exact ⟨l, v, hl, (hW l v).mpr (.inl hv)⟩
      · exact ⟨k, w, rfl, (hW k w).mpr (.inr ⟨rfl, rfl⟩)⟩
    · rintro ⟨l, v, rfl, hv⟩
      rcases (hW l v).mp hv with hold | ⟨rfl, -⟩
      · exact .inl ⟨l, v, rfl, hold⟩
      · exact .inr rfl
  ordered := by
    -- a thread on the list is not the new one
    have hold : ∀ l v, l.thread ∈ waiters → W' l v → W l v := by
      intro l v hl hv
      rcases (hW l v).mp hv with hv | ⟨rfl, -⟩
      · exact hv
      · exact absurd hl hnew
    rw [pairwise_append]
    refine ⟨h.ordered.imp_of_mem fun {t u} ht hu hlt i j x y hi hj hx hy => ?_,
      pairwise_singleton _ _, fun t ht u hu i j x y hi hj hx hy => ?_⟩
    · exact hlt i j x y hi hj (hold i x (hi ▸ ht) hx) (hold j y (hj ▸ hu) hy)
    · have hx := hold i x (hi ▸ ht) hx
      rcases (hW j y).mp hy with hj' | ⟨-, rfl⟩
      · rw [mem_singleton.mp hu] at hj
        exact absurd ((h.mem _).mpr ⟨j, y, hj, hj'⟩) hnew
      · exact hsince i x hx

end Queued

namespace Inv

variable (h : Inv σ)

include h

/-- A thread waits once on a condition variable. -/
theorem unique (hk : Waiting σ k w) (hl : Waiting σ l v) (hthread : k.thread = l.thread)
    (hcond : w.cond = v.cond) : k = l ∧ w = v := by
  rcases lt_trichotomy k.level l.level with hlt | heq | hgt
  · exact absurd hcond (h.nested k l w v _ hthread hlt hk hl)
  · have hkl : k = l := by
      obtain ⟨t, level⟩ := k
      obtain ⟨u, level'⟩ := l
      cases hthread
      cases heq
      rfl
    subst hkl
    cases hk.symm.trans hl
    exact ⟨rfl, rfl⟩
  · exact absurd hcond.symm (h.nested l k v w _ hthread.symm hgt hl hk)

/-- The wait of the current context is on no list, unless it waits. -/
theorem not_mem (hk : stage σ (σ.current t) = some (w, s))
    (hnot : ¬ Waiting σ (σ.current t) w) : t ∉ (σ.cond w.cond).waiters := by
  intro hmem
  obtain ⟨l, v, rfl, hl, hcond⟩ := ((h.queued w.cond).mem t).mp hmem
  rcases lt_trichotomy l.level (σ.handlers l.thread) with hlt | heq | hgt
  · exact h.nested l (σ.current l.thread) v w s rfl hlt hl hk hcond
  · have hself : l = σ.current l.thread := by rw [current, ← heq]
    rw [hself] at hl
    cases hk.symm.trans hl
    exact hnot hl
  · have hidle := h.above l hgt
    rw [Waiting, stage, hidle] at hl
    cases hl

end Inv
/-! ## What a thread can do -/

/-- What the own step of a thread leaves alone. -/
structure Own (σ τ : State) (t : ℕ) : Prop where
  others : ∀ k, k ≠ σ.current t → τ.pc k = σ.pc k
  handlers : τ.handlers = σ.handlers
  sequence : ∀ c, (τ.cond c).sequence = (σ.cond c).sequence
  cond_sequence : ∀ u, (τ.thread u).cond_sequence = (σ.thread u).cond_sequence
  time : τ.time = σ.time

/-- What the own step of a thread does to mutexes. -/
structure Locks (σ τ : State) (t : ℕ) : Prop where
  owned : ∀ m, Owned (τ.mutex m) (τ.held m)
  foreign : ∀ m, ¬ (σ.mutex m).open t → τ.mutex m = σ.mutex m
  type : ∀ m, (τ.mutex m).type = (σ.mutex m).type

/-- **One own step of a thread**, by what it does to its wait and to the lists. -/
inductive Goes (σ τ : State) (k : Context) : Prop
  | same (stage : stage τ k = stage σ k)
      (waited : ∀ w result, τ.pc k = .waited w result → σ.pc k = .waited w result)
      (lists : ∀ c, (τ.cond c).waiters = (σ.cond c).waiters)
  | began {w₀ w : Wait} (before : σ.pc k = .entering w₀)
      (same : w.cond = w₀.cond ∧ w.mutex = w₀.mutex ∧ w.depth = w₀.depth)
      (since : w.since = σ.time) (fresh : k.thread ∉ (σ.cond w.cond).waiters)
      (after : Waiting τ k w)
      (lists : ∀ c, (τ.cond c).waiters =
        if c = w.cond then (σ.cond c).waiters ++ [k.thread] else (σ.cond c).waiters)
  /-- A wait that times out at once. -/
  | late {w₀ w : Wait} (before : σ.pc k = .entering w₀)
      (same : w.cond = w₀.cond ∧ w.mutex = w₀.mutex ∧ w.depth = w₀.depth)
      (fresh : k.thread ∉ (σ.cond w.cond).waiters) (after : TimedOut τ k w)
      (lists : ∀ c, (τ.cond c).waiters = (σ.cond c).waiters)
  | timedOut {w : Wait} (before : Waiting σ k w) (after : TimedOut τ k w)
      (lists : ∀ c, (τ.cond c).waiters =
        if c = w.cond then (σ.cond c).waiters.erase k.thread else (σ.cond c).waiters)
  | returned {w : Wait} {result : Result} (before : stage σ k = some (w, .ended result))
      (ended : result = .ok ∨ result = .etimedout) (after : τ.pc k = .waited w result)
      (owner : (τ.mutex w.mutex).owner = some k.thread)
      (count : (τ.mutex w.mutex).count = w.depth)
      (lists : ∀ c, (τ.cond c).waiters = (σ.cond c).waiters)

structure Moves (σ τ : State) (t : ℕ) : Prop where
  own : Own σ τ t
  locks : Locks σ τ t
  sound : Sound τ (σ.current t)
  goes : Goes σ τ (σ.current t)

/-! ## Every step is a move -/

namespace Own

theorem refl (σ : State) (t : ℕ) : Own σ σ t :=
  ⟨fun _ _ => rfl, rfl, fun _ => rfl, fun _ => rfl, rfl⟩

variable (h : Own σ τ t)

include h

theorem current : τ.current t = σ.current t := by
  rw [State.current, h.handlers, State.current]

theorem goto (pc : Pc) : Own σ (τ.goto t pc) t :=
  { h with
    others := fun k hk => by
      rw [State.goto, h.current]
      exact (update_of_ne hk _ _).trans (h.others k hk) }

theorem setMutex (m : ℕ) (mutex : PthreadMutexPrivate) (count : ℕ) :
    Own σ (τ.setMutex m mutex t count) t := { h with }

theorem alike (h' : Alike τ ρ) : Own σ ρ t where
  others k hk := by rw [h'.pc, h.others k hk]
  handlers := h'.handlers.trans h.handlers
  sequence c := by rw [h'.cond, h.sequence]
  cond_sequence u := (h'.cond_sequence u).trans (h.cond_sequence u)
  time := h'.time.trans h.time

theorem setWaiters (c : ℕ) (waiters : List ℕ) : Own σ (τ.setWaiters c waiters) t :=
  { h with
    sequence := fun c' => by
      rw [← h.sequence, State.setWaiters]
      by_cases hc : c' = c
      · simp [hc]
      · simp [hc] }

theorem ready (u : ℕ) (w : Wait) : τ.ready u w = σ.ready u w := by
  rw [State.ready, State.ready, h.sequence, h.cond_sequence]

theorem stage_of_ne (hk : k ≠ σ.current t) : stage τ k = stage σ k := by
  rw [stage, stage, h.others k hk, funext (h.ready k.thread)]

end Own

theorem goto_pc (pc : Pc) (own : Own σ τ t) : (τ.goto t pc).pc (σ.current t) = pc := by
  rw [goto, own.current]
  exact update_self _ _ _

/-- The context is in no wait, or has not yet given its mutex away. -/
def Pc.quiet (pc : Pc) : Prop := ∀ ready, pc.stage ready = none

theorem Goes.quiet (hpc : τ.pc k = pc) (before : (σ.pc k).quiet) (after : pc.quiet)
    (waited : ∀ w result, pc ≠ .waited w result)
    (lists : ∀ c, (τ.cond c).waiters = (σ.cond c).waiters) : Goes σ τ k := by
  refine .same ?_ (fun w result hw => absurd (hpc.symm.trans hw) (waited w result)) lists
  rw [stage, stage, before, hpc, after]

/-- A call that comes to a result without a wait. -/
theorem Moves.quiet (own : Own σ τ t) (locks : Locks σ τ t) (before : (σ.pc (σ.current t)).quiet)
    (hcond : τ.cond = σ.cond) (hpc : pc.quiet) (waited : ∀ w result, pc ≠ .waited w result)
    (hentering : ∀ w, pc = .entering w →
      (τ.mutex w.mutex).owner = some t ∧ w.depth = (τ.mutex w.mutex).count) :
    Moves σ (τ.goto t pc) t := by
  have hself := goto_pc pc own
  refine ⟨own.goto pc, ⟨locks.owned, locks.foreign, locks.type⟩, ?_,
    .quiet hself before hpc waited fun c => by rw [← hcond]; rfl⟩
  unfold Sound
  rw [hself]
  cases pc with
  | entering w => exact hentering w rfl
  | asleep w | polling w => cases hpc fun _ => true
  | relocking w | restoring w => cases hpc fun _ => true
  | _ => trivial

theorem finish_same (σ : State) (t m : ℕ) (result : Result) :
    σ.finish t m (σ.mutex m) (σ.held m t) result = σ.goto t (.returned result) := by
  simp [State.finish, setMutex, goto]

section

variable (h : Inv σ)

include h

theorem Locks.refl : Locks σ σ t := ⟨h.owned, fun _ _ => rfl, fun _ => rfl⟩

theorem Locks.set (hopen : (σ.mutex m).open t)
    (howned : Owned next (update (σ.held m) t count)) (htype : next.type = (σ.mutex m).type) :
    Locks σ (σ.setMutex m next t count) t where
  owned m' := by
    unfold setMutex
    by_cases hm : m' = m
    · rw [hm]
      simpa using howned
    · simpa [hm] using h.owned m'
  foreign m' hnot := by
    have hm : m' ≠ m := fun heq => hnot (heq ▸ hopen)
    simp [setMutex, hm]
  type m' := by
    unfold setMutex
    by_cases hm : m' = m
    · simp [hm, htype]
    · simp [hm]

section

variable (before : (σ.pc (σ.current t)).quiet)

include before

theorem Moves.returned (result : Result) : Moves σ (σ.goto t (.returned result)) t :=
  .quiet (.refl σ t) (.refl h) before rfl (fun _ => rfl) (by simp) (by simp)

/-- A call that has locked or unlocked a mutex. -/
theorem Moves.finish (result : Result) (hopen : (σ.mutex m).open t)
    (howned : Owned next (update (σ.held m) t count)) (htype : next.type = (σ.mutex m).type) :
    Moves σ (σ.finish t m next count result) t :=
  .quiet ((Own.refl σ t).setMutex m next count) (.set h hopen howned htype) before rfl
    (fun _ => rfl) (by simp) (by simp)

theorem moves_enter (request : State.Request) : Moves σ (σ.enter t request) t := by
  cases request with
  | lock m timeout_us =>
    exact .quiet (.refl σ t) (.refl h) before rfl (fun _ => rfl) (by simp) (by simp)
  | trylock m =>
    rw [enter]
    rcases nativeMutexTrylock_cases (σ.mutex m) t with ⟨havailable, heq⟩ | ⟨result, hresult, heq⟩
    · rw [heq]
      exact .finish h before .ok (havailable.imp_right And.left) ((h.owned m).locked havailable) rfl
    · rw [heq]
      simp only [if_neg hresult, finish_same]
      exact .returned h before result
  | unlock m =>
    rw [enter]
    rcases nativeMutexUnlock_cases (σ.mutex m) t with ⟨howner, heq⟩ | heq
    · rw [heq]
      have hunlocked := (h.owned m).unlocked howner
      refine .finish h before .ok (.inr howner) hunlocked ?_
      unfold PthreadMutexPrivate.unlocked
      split_ifs <;> rfl
    · rw [heq]
      simp only [reduceCtorEq, if_false, finish_same]
      exact .returned h before .eperm
  | wait c m timing =>
    rw [enter]
    split_ifs with htiming howner
    · exact .returned h before .einval
    · exact .returned h before .eperm
    · refine .quiet (.refl σ t) (.refl h) before rfl (fun _ => rfl) (by simp) fun w hw => ?_
      cases hw
      exact ⟨not_not.mp howner, rfl⟩

end

theorem moves_same (t : ℕ) : Moves σ σ t :=
  ⟨.refl σ t, .refl h, h.sound _, .same rfl (fun _ _ => id) fun _ => rfl⟩

/-- **The first section** of a call. -/
theorem moves_start (t : ℕ) (request : State.Request) : Moves σ (σ.start t request) t := by
  unfold start
  split_ifs with hfree
  · refine moves_enter h (fun ready => ?_) request
    cases hpc : σ.pc (σ.current t) <;> simp_all [free, Pc.stage]
  · exact moves_same h t

end
theorem stage_of_sleeping (hpc : (σ.pc k).sleeping = some w) :
    stage σ k = some (w, .ofReady (σ.ready k.thread w)) := by
  cases h : σ.pc k <;> simp_all [stage, Pc.stage, Pc.sleeping]

theorem stage_current {ready : Bool} (hpc : (σ.pc (σ.current t)).sleeping = some w)
    (hready : σ.ready t w = ready) : stage σ (σ.current t) = some (w, .ofReady ready) := by
  rw [← hready]
  exact stage_of_sleeping hpc

theorem fits_entering (hfits : (Op.advance t expired).Fits σ)
    (hpc : σ.pc (σ.current t) = .entering w) : t ∉ (σ.cond w.cond).waiters := by
  unfold Op.Fits at hfits
  simpa only [hpc] using hfits

theorem fits_relocking (hfits : (Op.advance t expired).Fits σ)
    (hpc : σ.pc (σ.current t) = .relocking w result looping) :
    (σ.mutex w.mutex).owner ≠ some t := by
  unfold Op.Fits at hfits
  simpa only [hpc] using hfits

theorem Due.mono (h : Due σ w) (htype : (τ.mutex w.mutex).type = (σ.mutex w.mutex).type) :
    Due τ w :=
  ⟨h.depth, h.pos, htype.symm ▸ h.simple⟩

theorem Sound.due (h : Sound σ k) (hk : stage σ k = some (w, s)) : Due σ w := by
  unfold Sound at h
  unfold stage at hk
  cases hpc : σ.pc k <;> rw [hpc] at h hk
  case asleep | polling =>
    cases hk
    exact h
  case relocking | restoring =>
    cases hk
    exact h.1
  all_goals cases hk

theorem Locks.congr (h : Locks σ τ t) (hmutex : ρ.mutex = τ.mutex)
    (hheld : ρ.held = τ.held) : Locks σ ρ t where
  owned m := by rw [hmutex, hheld]; exact h.owned m
  foreign m hnot := by rw [hmutex, h.foreign m hnot]
  type m := by rw [hmutex, h.type]

section

variable (σ) (t) (w) (result)

theorem leave_mutex : (σ.leave t w result).mutex = σ.mutex :=
  (alike_condRemoveWaiter σ w.cond t).mutex

theorem leave_held : (σ.leave t w result).held = σ.held :=
  (alike_condRemoveWaiter σ w.cond t).held

theorem leave_lists (c : ℕ) : ((σ.leave t w result).cond c).waiters =
    if c = w.cond then (σ.cond c).waiters.erase t else (σ.cond c).waiters := by
  have hcond : (σ.leave t w result).cond =
      (σ.setWaiters w.cond ((σ.cond w.cond).waiters.erase t)).cond :=
    (alike_condRemoveWaiter σ w.cond t).cond
  rw [hcond, setWaiters]
  by_cases hc : c = w.cond
  · simp [hc]
  · simp [hc]

end

theorem Own.leave (h : Own σ τ t) (w : Wait) (result : Result) : Own σ (τ.leave t w result) t :=
  ((h.setWaiters w.cond _).alike (alike_condRemoveWaiter τ w.cond t)).goto _

theorem leave_pc (w : Wait) (result : Result) (own : Own σ τ t) :
    (τ.leave t w result).pc (σ.current t) = .relocking w result false :=
  goto_pc _ ((own.setWaiters w.cond _).alike (alike_condRemoveWaiter τ w.cond t))

section

variable (h : Inv σ)

include h

section

variable (before : (σ.pc (σ.current t)).sleeping = some w)

include before

/-- A wait leaves its list and goes on to lock its mutex. -/
theorem moves_leave (hresult : (result = .ok ∧ σ.ready t w = true) ∨
      (result = .etimedout ∧ σ.ready t w = false)) : Moves σ (σ.leave t w result) t := by
  have own : Own σ (σ.leave t w result) t := (Own.refl σ t).leave w result
  have hpc := leave_pc w result (.refl σ t)
  have hafter : stage (σ.leave t w result) (σ.current t) = some (w, .ended result) := by
    rw [stage, hpc]
    rfl
  have hdue := (h.sound _).due (stage_of_sleeping before)
  refine ⟨own, (Locks.refl h).congr (leave_mutex σ t w result) (leave_held σ t w result), ?_, ?_⟩
  · unfold Sound
    rw [hpc]
    exact ⟨hdue.mono (by rw [leave_mutex]), hresult.imp And.left And.left⟩
  · obtain ⟨rfl, hready⟩ | ⟨rfl, hready⟩ := hresult
    · -- it is on no list any more, so that there is nothing to take away
      have hσ : stage σ (σ.current t) = some (w, .ended .ok) := stage_current before hready
      refine .same (hafter.trans hσ.symm) (fun v r hw => by rw [hpc] at hw; cases hw) fun c => ?_
      rw [leave_lists]
      split_ifs with hc
      · rw [hc]
        refine erase_of_not_mem (h.not_mem hσ fun hw => ?_)
        cases hσ.symm.trans hw
      · rfl
    · exact .timedOut (stage_current before hready) hafter (leave_lists σ t w .etimedout)

theorem moves_sleeping (after : pc.sleeping = some w) : Moves σ (σ.goto t pc) t := by
  have hpc := goto_pc pc (.refl σ t)
  have own : Own σ (σ.goto t pc) t := (Own.refl σ t).goto pc
  have hafter : stage (σ.goto t pc) (σ.current t) = stage σ (σ.current t) := by
    rw [stage_of_sleeping before, stage_of_sleeping (hpc ▸ after), own.ready]
  have hdue := (h.sound _).due (stage_of_sleeping before)
  refine ⟨own, (Locks.refl h).congr rfl rfl, ?_, .same hafter ?_ fun _ => rfl⟩
  · unfold Sound
    rw [hpc]
    cases pc <;> cases after <;> exact hdue.mono rfl
  · intro v r hw
    rw [hpc] at hw
    rw [hw] at after
    cases after

theorem moves_loopTop (expired : Bool) : Moves σ (σ.loopTop t w expired) t := by
  unfold loopTop
  split_ifs with hready hlate
  · exact moves_leave h before (.inl ⟨rfl, hready⟩)
  · exact moves_leave h before (.inr ⟨rfl, by simpa using hready⟩)
  · exact moves_sleeping h before rfl

end

/-- A wait goes to sleep on its list, or times out at once. -/
theorem moves_beginWait {w₀ : Wait} (before : σ.pc (σ.current t) = .entering w₀)
    (hfresh : t ∉ (σ.cond w₀.cond).waiters) (expired : Bool) :
    Moves σ (σ.beginWait t w₀ expired) t := by
  have hsound := h.sound (σ.current t)
  unfold Sound at hsound
  rw [before] at hsound
  obtain ⟨howner, hdepth⟩ : (σ.mutex w₀.mutex).owner = some t ∧ _ := hsound
  set w : Wait := { w₀ with
    sequence := (σ.cond w₀.cond).sequence
    thread_sequence := (σ.thread t).cond_sequence
    since := σ.time
    recurse := (σ.mutex w₀.mutex).count } with hw
  set υ : State := (σ.condAddWaiter w₀.cond t).setMutex w₀.mutex
    { σ.mutex w₀.mutex with owner := none, count := 0 } t 0 with hυ
  have hbegin : σ.beginWait t w₀ expired
      = if w.timing = .relative 0 then υ.leave t w .etimedout else υ.loopTop t w expired := by
    have hmutex : (σ.condAddWaiter w₀.cond t).mutex w₀.mutex = σ.mutex w₀.mutex := rfl
    have hrelease : nativeMutexRelease (σ.mutex w₀.mutex) t
        = ({ σ.mutex w₀.mutex with owner := none, count := 0 }, some (σ.mutex w₀.mutex).count) := by
      rw [nativeMutexRelease, if_pos howner]
    simp only [beginWait, hmutex, hrelease]
    rfl
  have own : Own σ υ t :=
    (((Own.refl σ t).alike (alike_setWaitingCond σ t (some w₀.cond))).setWaiters
      w₀.cond _).setMutex _ _ _
  have hreleased : Owned { σ.mutex w₀.mutex with owner := none, count := 0 }
      (update (σ.held w₀.mutex) t 0) :=
    (h.owned w₀.mutex).set (.inr howner) rfl nofun rfl fun _ => Nat.zero_le 1
  have locks : Locks σ υ t := (Locks.set h (.inr howner) hreleased rfl).congr rfl rfl
  have hlists : ∀ c, (υ.cond c).waiters =
      if c = w.cond then (σ.cond c).waiters ++ [t] else (σ.cond c).waiters := by
    intro c
    by_cases hc : c = w₀.cond
    · simp [hυ, hw, setMutex, condAddWaiter, setWaiters, setWaitingCond, hc]
    · simp [hυ, hw, setMutex, condAddWaiter, setWaiters, setWaitingCond, hc]
  -- the wait is not ready: its sequences are the ones of this moment
  have hready : υ.ready t w = false := by
    rw [own.ready, ready, hw]
    simp
  have hcount : w.recurse = σ.held w₀.mutex t := (h.owned w₀.mutex).count t howner
  have hdue : ∀ {τ : State}, τ.mutex = υ.mutex → Due τ w := by
    intro τ hmutex
    refine ⟨hdepth.symm, ?_, fun htype => ?_⟩
    · exact hcount.symm ▸ ((h.owned w₀.mutex).owner t).mp howner
    · rw [hmutex] at htype
      have htwo : (σ.mutex w₀.mutex).type ≠ 2 := by rwa [← locks.type w₀.mutex]
      exact hcount.symm ▸ (h.owned w₀.mutex).simple htwo t
  have hleave : Moves σ (υ.leave t w .etimedout) t := by
    have hpc := leave_pc w .etimedout own
    refine ⟨own.leave w .etimedout, locks.congr (leave_mutex ..) (leave_held ..), ?_, ?_⟩
    · unfold Sound
      rw [hpc]
      exact ⟨hdue (leave_mutex ..), .inr rfl⟩
    · have hafter : TimedOut (υ.leave t w .etimedout) (σ.current t) w := by
        rw [TimedOut, stage, hpc]
        rfl
      refine .late (w := w) before ⟨rfl, rfl, rfl⟩ hfresh hafter fun c => ?_
      rw [leave_lists, hlists]
      split_ifs with hc
      · simp [hc, hw, erase_append_right _ hfresh]
      · rfl
  rw [hbegin]
  split_ifs with hzero
  · exact hleave
  · unfold loopTop
    rw [hready]
    simp only [Bool.false_eq_true, if_false]
    split_ifs with hlate
    · exact hleave
    · have hpc := goto_pc (.asleep w) own
      have hown := own.goto (.asleep w)
      refine ⟨hown, locks.congr rfl rfl, ?_, ?_⟩
      · unfold Sound
        rw [hpc]
        exact hdue rfl
      · have hwaiting : Waiting (υ.goto t (.asleep w)) (σ.current t) w := by
          rw [Waiting, stage, hpc]
          exact congrArg (fun ready => some (w, Stage.ofReady ready)) hready
        exact .began (w := w) before ⟨rfl, rfl, rfl⟩ rfl hfresh hwaiting hlists

/-- A wait takes its mutex back, or waits for it. -/
theorem moves_relocking (hpc : σ.pc (σ.current t) = .relocking w result looping)
    (hfree : (σ.mutex w.mutex).owner ≠ some t) (expired : Bool) :
    Moves σ (σ.advance t expired) t := by
  have hsound := h.sound (σ.current t)
  unfold Sound at hsound
  rw [hpc] at hsound
  obtain ⟨hdue, hover⟩ := hsound
  unfold advance
  simp only [hpc]
  rcases nativeMutexLock_cases (σ.mutex w.mutex) t none looping expired with
    ⟨havailable, heq⟩ | ⟨-, heq | ⟨hself, -⟩⟩
  · rw [heq]
    have hlocked := (h.owned w.mutex).locked havailable
    have locks := Locks.set h (havailable.imp_right And.left) hlocked rfl
    have own := (Own.refl σ t).setMutex w.mutex ((σ.mutex w.mutex).locked t)
      (σ.held w.mutex t + 1)
    have hafter := goto_pc (.restoring w result) own
    refine ⟨own.goto _, locks.congr rfl rfl, ?_, .same ?_ ?_ fun _ => rfl⟩
    · unfold Sound
      dsimp only
      rw [hafter]
      exact ⟨hdue.mono (locks.type _), hover, by simp [goto, setMutex,
        PthreadMutexPrivate.locked, current]⟩
    · dsimp only
      rw [stage, hafter, stage, hpc]
      rfl
    · intro v r hw
      cases hafter.symm.trans hw
  · rw [heq]
    have own := Own.refl σ t
    have hafter := goto_pc (.relocking w result true) own
    refine ⟨own.goto _, (Locks.refl h).congr rfl rfl, ?_, .same ?_ ?_ fun _ => rfl⟩
    · unfold Sound
      dsimp only
      rw [hafter]
      exact ⟨hdue.mono rfl, hover⟩
    · dsimp only
      rw [stage, hafter, stage, hpc]
      rfl
    · intro v r hw
      cases hafter.symm.trans hw
  · exact absurd (hself rfl).2 hfree

/-- A wait restores the count of its mutex and returns. -/
theorem moves_restoring (hpc : σ.pc (σ.current t) = .restoring w result) (expired : Bool) :
    Moves σ (σ.advance t expired) t := by
  have hsound := h.sound (σ.current t)
  unfold Sound at hsound
  rw [hpc] at hsound
  obtain ⟨hdue, hover, howner⟩ := hsound
  have hpos := hdue.pos
  have hsimple := hdue.simple
  have hrecurse : max w.recurse 1 = w.recurse := max_eq_left hpos
  have hcount : State.kernelError result = result := by
    rcases hover with rfl | rfl <;> rfl
  unfold advance
  simp only [hpc, hrecurse, hcount]
  have howned : Owned { σ.mutex w.mutex with count := w.recurse }
      (update (σ.held w.mutex) t w.recurse) :=
    (h.owned w.mutex).set (.inr howner) (by rw [if_pos hpos]; exact howner) (fun _ => rfl) rfl
      hsimple
  have own := (Own.refl σ t).setMutex w.mutex { σ.mutex w.mutex with count := w.recurse } w.recurse
  have hafter := goto_pc (.waited w result) own
  refine ⟨own.goto _, (Locks.set h (.inr howner) howned rfl).congr rfl rfl, ?_,
    .returned ?_ hover hafter ?_ ?_ fun _ => rfl⟩
  · unfold Sound
    rw [hafter]
    trivial
  · rw [stage, hpc]
    rfl
  · simp only [goto, setMutex, update_self]
    exact howner
  · simp only [goto, setMutex, update_self]
    exact hdue.depth

/-- **The next section of a thread.** -/
theorem moves_advance (expired : Bool) (hfits : (Op.advance t expired).Fits σ) :
    Moves σ (σ.advance t expired) t := by
  cases hpc : σ.pc (σ.current t) with
  | idle | returned | waited =>
    unfold advance
    simp only [hpc]
    exact moves_same h t
  | locking m timeout_us looping =>
    have before : (σ.pc (σ.current t)).quiet := fun _ => by rw [hpc]; rfl
    unfold advance
    simp only [hpc]
    rcases nativeMutexLock_cases (σ.mutex m) t timeout_us looping expired with
      ⟨havailable, heq⟩ | ⟨-, heq | ⟨-, result, hresult, heq⟩⟩
    · rw [heq]
      exact .finish h before .ok (havailable.imp_right And.left) ((h.owned m).locked havailable) rfl
    · rw [heq]
      exact .quiet (.refl σ t) (.refl h) before rfl (fun _ => rfl) (by simp) (by simp)
    · rw [heq]
      simp only [if_neg hresult, finish_same]
      exact .returned h before result
  | entering w =>
    have hbegin := moves_beginWait h hpc (fits_entering hfits hpc) expired
    unfold advance
    simpa only [hpc] using hbegin
  | asleep w =>
    have before : (σ.pc (σ.current t)).sleeping = some w := by rw [hpc]; rfl
    unfold advance
    simp only [hpc]
    split_ifs with hready
    · exact moves_leave h before (.inl ⟨rfl, hready⟩)
    · exact moves_sleeping h before rfl
  | polling w =>
    have hloop := moves_loopTop h (t := t) (w := w) (by rw [hpc]; rfl) expired
    unfold advance
    simpa only [hpc] using hloop
  | relocking w result looping =>
    exact moves_relocking h hpc (fits_relocking hfits hpc) expired
  | restoring w result => exact moves_restoring h hpc expired

end
/-! ## The invariant, step by step -/

theorem stage_of_entering (h : σ.pc k = .entering w) : stage σ k = none := by
  rw [stage, h]
  rfl

theorem stage_of_waited (h : σ.pc k = .waited w result) : stage σ k = none := by
  rw [stage, h]
  rfl

theorem Sound.congr (h : Sound σ k) (hmutex : τ.mutex = σ.mutex) (hpc : τ.pc k = σ.pc k) :
    Sound τ k := by
  have hdue : ∀ w, Due σ w → Due τ w := fun w hw => hw.mono (by rw [hmutex])
  unfold Sound at h ⊢
  rw [hpc, hmutex]
  cases hk : σ.pc k <;> rw [hk] at h
  case asleep | polling => exact hdue _ h
  case relocking => exact ⟨hdue _ h.1, h.2⟩
  case restoring => exact ⟨hdue _ h.1, h.2⟩
  case entering => exact h
  all_goals trivial

theorem Moves.waiting_same (hmove : Moves σ τ t)
    (hself : ∀ w, Waiting τ (σ.current t) w ↔ Waiting σ (σ.current t) w) (k : Context) (w : Wait) :
    Waiting τ k w ↔ Waiting σ k w := by
  by_cases hk : k = σ.current t
  · rw [hk]
    exact hself w
  · rw [Waiting, Waiting, hmove.own.stage_of_ne hk]

namespace Inv

section

variable (h : Inv σ)

include h

theorem mem_of_waiting (hk : Waiting σ k w) : k.thread ∈ (σ.cond w.cond).waiters :=
  ((h.queued w.cond).mem k.thread).mpr ⟨k, w, rfl, hk, rfl⟩

/-- Only the innermost context of a thread is between two steps of a call. -/
theorem thread_ne (hk : k ≠ σ.current t) (hidle : σ.pc k ≠ .idle)
    (hbusy : State.interruptible (σ.pc k) = false) : k.thread ≠ t := by
  rintro rfl
  rcases lt_trichotomy k.level (σ.handlers k.thread) with hlt | heq | hgt
  · rw [h.below k hlt] at hbusy
    cases hbusy
  · exact hk (by rw [current, ← heq])
  · exact hidle (h.above k hgt)

theorem sound_of_ne (locks : Locks σ τ t) (own : Own σ τ t) (hk : k ≠ σ.current t) : Sound τ k := by
  have hpc := own.others k hk
  have hsound := h.sound k
  have hdue : ∀ w, Due σ w → Due τ w := fun w hw => hw.mono (locks.type _)
  -- no other thread touches a mutex that this one owns
  have hforeign : ∀ w : Wait, (σ.mutex w.mutex).owner = some k.thread → σ.pc k ≠ .idle →
      State.interruptible (σ.pc k) = false → τ.mutex w.mutex = σ.mutex w.mutex := by
    intro w howner hidle hbusy
    refine locks.foreign _ fun hopen => ?_
    rcases hopen with hnone | hself
    · rw [hnone] at howner
      cases howner
    · exact h.thread_ne hk hidle hbusy (some.inj (howner.symm.trans hself))
  unfold Sound at hsound ⊢
  rw [hpc]
  cases hσ : σ.pc k <;> rw [hσ] at hsound hforeign
  case entering w =>
    dsimp only
    rw [hforeign w hsound.1 (by simp) rfl]
    exact hsound
  case asleep | polling => exact hdue _ hsound
  case relocking => exact ⟨hdue _ hsound.1, hsound.2⟩
  case restoring w _ =>
    refine ⟨hdue _ hsound.1, hsound.2.1, ?_⟩
    rw [hforeign w hsound.2.2 (by simp) rfl]
    exact hsound.2.2
  all_goals trivial

variable (hmove : Moves σ τ t)

include hmove

theorem queued_moves (c : ℕ) : Queued (τ.cond c).waiters fun k w => Waiting τ k w ∧ w.cond = c := by
  have hold := h.queued c
  have hother : ∀ k w, k ≠ σ.current t → (Waiting τ k w ↔ Waiting σ k w) := by
    intro k w hk
    rw [Waiting, Waiting, hmove.own.stage_of_ne hk]
  cases hmove.goes with
  | same hstage _ lists =>
    rw [lists]
    refine hold.congr fun k w => and_congr_left fun _ => hmove.waiting_same (fun v => ?_) k w
    rw [Waiting, Waiting, hstage]
  | @began w₀ w before _ since fresh after lists =>
    rw [lists]
    have hnone : ∀ v, ¬ Waiting σ (σ.current t) v := by
      intro v hv
      rw [Waiting, stage_of_entering before] at hv
      cases hv
    have hiff : ∀ k v, Waiting τ k v ↔ Waiting σ k v ∨ k = σ.current t ∧ v = w := by
      intro k v
      by_cases hk : k = σ.current t
      · subst hk
        simp only [hnone, false_or, true_and]
        refine ⟨fun hv => ?_, fun hv => hv ▸ after⟩
        cases hv.symm.trans after
        rfl
      · simp only [hother k v hk, hk, false_and, or_false]
    split_ifs with hc
    · subst hc
      refine hold.append fresh (w := w) (fun k v => ?_) fun k v hv => ?_
      · rw [hiff]
        constructor
        · rintro ⟨hv | hv, hc⟩
          · exact .inl ⟨hv, hc⟩
          · exact .inr hv
        · rintro (⟨hv, hc⟩ | ⟨hk, rfl⟩)
          · exact ⟨.inl hv, hc⟩
          · exact ⟨.inr ⟨hk, rfl⟩, rfl⟩
      · rw [since]
        exact h.since k v hv.1
    · refine hold.congr fun k v => ?_
      rw [hiff]
      constructor
      · rintro ⟨hv | ⟨-, rfl⟩, hv'⟩
        · exact ⟨hv, hv'⟩
        · exact absurd hv'.symm hc
      · exact fun hv => ⟨.inl hv.1, hv.2⟩
  | late before _ _ after lists =>
    rw [lists]
    refine hold.congr fun k w => and_congr_left fun _ => hmove.waiting_same (fun v => ?_) k w
    rw [Waiting, Waiting, after, stage_of_entering before]
    simp
  | @timedOut w before after lists =>
    rw [lists]
    have hiff : ∀ k v, Waiting τ k v ↔ Waiting σ k v ∧ k ≠ σ.current t := by
      intro k v
      by_cases hk : k = σ.current t
      · subst hk
        rw [Waiting, after]
        simp
      · simp [hother k v hk, hk]
    split_ifs with hc
    · subst hc
      refine hold.erase fun k v => ?_
      rw [hiff]
      constructor
      · rintro ⟨⟨hv, hk⟩, hc⟩
        exact ⟨⟨hv, hc⟩, fun hthread => hk (h.unique hv before hthread hc).1⟩
      · rintro ⟨⟨hv, hc⟩, hthread⟩
        exact ⟨⟨hv, fun hk => hthread (hk ▸ rfl)⟩, hc⟩
    · refine hold.congr fun k v => ?_
      rw [hiff]
      refine ⟨fun hv => ⟨hv.1.1, hv.2⟩, fun hv => ⟨⟨hv.1, fun hk => ?_⟩, hv.2⟩⟩
      subst hk
      cases hv.1.symm.trans before
      exact hc hv.2.symm
  | returned before _ after _ _ lists =>
    rw [lists]
    refine hold.congr fun k w => and_congr_left fun _ => hmove.waiting_same (fun v => ?_) k w
    rw [Waiting, Waiting, stage_of_waited after, before]
    simp

theorem since_moves (hk : Waiting τ k w) : w.since < τ.tick.time := by
  have htime : τ.tick.time = σ.time + 1 := congrArg (· + 1) hmove.own.time
  rw [htime]
  by_cases hcur : k = σ.current t
  · subst hcur
    cases hmove.goes with
    | same hstage =>
      exact lt_succ_of_lt (h.since _ w (hstage.symm.trans hk))
    | began _ _ since _ after =>
      cases hk.symm.trans after
      rw [since]
      exact lt_succ_self _
    | late _ _ _ after | timedOut _ after => cases hk.symm.trans after
    | returned _ _ after => cases hk.symm.trans (stage_of_waited after)
  · rw [Waiting, hmove.own.stage_of_ne hcur] at hk
    exact lt_succ_of_lt (h.since k w hk)

theorem nested_moves (hthread : k.thread = l.thread) (hlevel : k.level < l.level)
    (hk : Waiting τ k w) (hl : stage τ l = some (v, s))
    (habove : ∀ k, σ.handlers k.thread < k.level → τ.pc k = .idle) : w.cond ≠ v.cond := by
  have hle : l.level ≤ σ.handlers l.thread := by
    by_contra hgt
    rw [stage, habove l (not_le.mp hgt)] at hl
    cases hl
  have hcur : k ≠ σ.current t := by
    rintro rfl
    rw [← hthread] at hle
    exact absurd hle (not_le.mpr hlevel)
  rw [Waiting, hmove.own.stage_of_ne hcur] at hk
  by_cases hlcur : l = σ.current t
  · subst hlcur
    have hmem := h.mem_of_waiting hk
    rw [hthread] at hmem
    cases hmove.goes with
    | same hstage => exact h.nested k _ w v s hthread hlevel hk (hstage.symm.trans hl)
    | began _ _ _ fresh after | late _ _ fresh after =>
      cases hl.symm.trans after
      exact fun hc => fresh (hc ▸ hmem)
    | timedOut before after =>
      cases hl.symm.trans after
      exact h.nested k _ w v _ hthread hlevel hk before
    | returned _ _ after => cases hl.symm.trans (stage_of_waited after)
  · rw [hmove.own.stage_of_ne hlcur] at hl
    exact h.nested k l w v s hthread hlevel hk hl

/-- **One own step** keeps the invariant. -/
theorem moves : Inv τ.tick := by
  have own := hmove.own
  have hqueued := h.queued_moves hmove
  have habove : ∀ k, σ.handlers k.thread < k.level → τ.pc k = .idle := by
    intro k hk
    have hcur : k ≠ σ.current t := by
      rintro rfl
      exact lt_irrefl _ hk
    rw [own.others k hcur, h.above k hk]
  refine
    { owned := hmove.locks.owned
      sound := fun k => ?_
      above := fun k hk => habove k (own.handlers ▸ hk)
      below := fun k hk => ?_
      queued := hqueued
      since := fun k w hk => h.since_moves hmove hk
      nested := fun k l w v s hthread hlevel hk hl =>
        h.nested_moves hmove hthread hlevel hk hl habove }
  · have hsound : Sound τ k := by
      by_cases hk : k = σ.current t
      · exact hk ▸ hmove.sound
      · exact h.sound_of_ne hmove.locks own hk
    exact hsound.congr rfl rfl
  · have hlt : k.level < σ.handlers k.thread := own.handlers ▸ hk
    have hcur : k ≠ σ.current t := by
      rintro rfl
      exact lt_irrefl _ hlt
    exact (congrArg State.interruptible (own.others k hcur)).trans (h.below k hlt)

end

end Inv
/-! ## Signals, broadcasts and handlers -/

variable {S : Set Context}

theorem sleeping_of_waiting (h : Waiting σ k w) : (σ.pc k).sleeping = some w := by
  unfold Waiting stage at h
  cases hpc : σ.pc k <;> simp_all [Pc.stage, Pc.sleeping]

theorem waiting_of_not_ready (hk : (σ.pc k).sleeping = some w)
    (hready : σ.ready k.thread w = false) : Waiting σ k w := by
  rw [Waiting, stage_of_sleeping hk, hready]
  rfl

/-- The contexts in `S` were waiting, and are released; nothing else has happened. -/
structure Woken (σ τ : State) (S : Set Context) : Prop where
  frame : Frame σ τ
  ready : ∀ k w, (σ.pc k).sleeping = some w →
    (τ.ready k.thread w = true ↔ σ.ready k.thread w = true ∨ k ∈ S)
  waiting : ∀ k ∈ S, ∃ w, Waiting σ k w
  queued : ∀ c, Queued (τ.cond c).waiters fun k w => (Waiting σ k w ∧ k ∉ S) ∧ w.cond = c

namespace Woken

section

variable (h : Woken σ τ S)

include h

theorem stage_of_mem (hk : k ∈ S) (hw : Waiting σ k w) : Released τ k w := by
  have hsleeping := sleeping_of_waiting hw
  rw [Released, stage_of_sleeping (h.frame.pc ▸ hsleeping), (h.ready k w hsleeping).mpr (.inr hk)]
  rfl

theorem stage_of_not_mem (hk : k ∉ S) : stage τ k = stage σ k := by
  rw [stage, stage, h.frame.pc]
  have hready : ∀ w, (σ.pc k).sleeping = some w → τ.ready k.thread w = σ.ready k.thread w :=
    fun w hw => Bool.eq_iff_iff.mpr ((h.ready k w hw).trans (or_iff_left hk))
  cases hpc : σ.pc k <;> rw [hpc] at hready <;> simp only [Pc.stage]
  case asleep w | polling w => rw [hready w rfl]

theorem waiting_iff (k : Context) (w : Wait) : Waiting τ k w ↔ Waiting σ k w ∧ k ∉ S := by
  by_cases hk : k ∈ S
  · obtain ⟨v, hv⟩ := h.waiting k hk
    have hreleased := h.stage_of_mem hk hv
    rw [Waiting, hreleased]
    simp [hk]
  · rw [Waiting, h.stage_of_not_mem hk]
    exact (and_iff_left hk).symm

/-- **Exactly the contexts in `S` are released.** -/
theorem newlyReleased_eq : newlyReleased σ τ.tick = S := by
  ext k
  constructor
  · rintro ⟨w, hreleased, hnot⟩
    by_contra hk
    exact hnot ((h.stage_of_not_mem hk).symm.trans hreleased)
  · intro hk
    obtain ⟨w, hw⟩ := h.waiting k hk
    refine ⟨w, h.stage_of_mem hk hw, fun hreleased => ?_⟩
    cases hw.symm.trans hreleased

theorem inv (hinv : Inv σ) : Inv τ.tick where
  owned m := by
    rw [tick, h.frame.mutex, h.frame.held]
    exact hinv.owned m
  sound k := (hinv.sound k).congr h.frame.mutex (congrFun h.frame.pc k)
  above k hk := (congrFun h.frame.pc k).trans (hinv.above k (h.frame.handlers ▸ hk))
  below k hk := (congrArg State.interruptible (congrFun h.frame.pc k)).trans
    (hinv.below k (h.frame.handlers ▸ hk))
  queued c := (h.queued c).congr fun k w => and_congr_left fun _ => h.waiting_iff k w
  since k w hk := by
    rw [tick, h.frame.time]
    exact lt_succ_of_lt (hinv.since k w ((h.waiting_iff k w).mp hk).1)
  nested k l w v s hthread hlevel hk hl := by
    have hk' := ((h.waiting_iff k w).mp hk).1
    by_cases hmem : l ∈ S
    · obtain ⟨x, hx⟩ := h.waiting l hmem
      cases hl.symm.trans (h.stage_of_mem hmem hx)
      exact hinv.nested k l w v _ hthread hlevel hk' hx
    · exact hinv.nested k l w v s hthread hlevel hk' ((h.stage_of_not_mem hmem).symm.trans hl)

end

theorem refl (h : Inv σ) : Woken σ σ ∅ where
  frame := .refl σ
  ready k w _ := by simp
  waiting k hk := nomatch hk
  queued c := (h.queued c).congr fun k w => by simp

end Woken

theorem cond_update {sequence : BitVec 64}
    (h : τ.cond = update σ.cond c ⟨sequence, waiters⟩) (c' : ℕ) :
    (τ.cond c').sequence = (if c' = c then sequence else (σ.cond c').sequence) ∧
      (τ.cond c').waiters = if c' = c then waiters else (σ.cond c').waiters := by
  rw [h]
  by_cases hc : c' = c <;> simp [hc]

section

variable (h : Inv σ)

include h

/-- To take a thread from its list releases its wait. -/
theorem woken_of_take (hsole : σ.Sole c t) (frame : Frame σ τ)
    (hcond : τ.cond = update σ.cond c { σ.cond c with waiters := (σ.cond c).waiters.erase t })
    (hcount : ∀ u, (τ.thread u).cond_sequence
      = if u = t then (σ.thread t).cond_sequence + 1 else (σ.thread u).cond_sequence) :
    Woken σ τ {k | k.thread = t ∧ ∃ w, Waiting σ k w ∧ w.cond = c} := by
  have hsequence : ∀ c', (τ.cond c').sequence = (σ.cond c').sequence := by
    intro c'
    rw [(cond_update hcond c').1]
    split_ifs with hc
    · rw [hc]
    · rfl
  have hlist := fun c' => (cond_update hcond c').2
  -- the thread waits on this condition variable only
  have hsole' : ∀ k w, k.thread = t → (σ.pc k).sleeping = some w →
      (σ.ready t w = false → w.cond = c) ∧
        w.thread_sequence ≠ (σ.thread t).cond_sequence + 1 := by
    rintro k w rfl hw
    refine hsole k.level ?_ w hw
    by_contra hgt
    rw [h.above k (not_le.mp hgt)] at hw
    cases hw
  have hmem : ∀ k w, Waiting σ k w → k.thread = t → w.cond = c := by
    rintro k w hk rfl
    have hsleeping := sleeping_of_waiting hk
    refine (hsole' k w rfl hsleeping).1 ?_
    by_contra hready
    rw [Waiting, stage_of_sleeping hsleeping, Bool.eq_true_of_not_eq_false hready] at hk
    cases hk
  refine { frame := frame, ready := fun k w hw => ?_, waiting := ?_, queued := fun c' => ?_ }
  · rw [ready, hsequence, hcount]
    by_cases hthread : k.thread = t
    · -- its signal is counted, so that it is ready
      subst hthread
      have hne := (hsole' k w rfl hw).2
      rw [if_pos rfl, bne_iff_ne.mpr (Ne.symm hne), Bool.or_true]
      refine iff_of_true rfl ?_
      cases hready : σ.ready k.thread w with
      | true => exact .inl rfl
      | false =>
        have hwaiting := waiting_of_not_ready hw hready
        exact .inr ⟨rfl, w, hwaiting, hmem _ w hwaiting rfl⟩
    · rw [if_neg hthread, ready]
      exact (or_iff_left fun hk => hthread hk.1).symm
  · rintro k ⟨-, w, hw, -⟩
    exact ⟨w, hw⟩
  · rw [hlist]
    split_ifs with hc
    · rw [hc]
      refine (h.queued c).erase fun k w => ?_
      constructor
      · rintro ⟨⟨hw, hk⟩, hwc⟩
        exact ⟨⟨hw, hwc⟩, fun hthread => hk ⟨hthread, w, hw, hwc⟩⟩
      · rintro ⟨⟨hw, hwc⟩, hthread⟩
        exact ⟨⟨hw, fun hk => hthread hk.1⟩, hwc⟩
    · refine (h.queued c').congr fun k w => ?_
      refine ⟨fun hw => ⟨hw.1.1, hw.2⟩, fun hw => ⟨⟨hw.1, fun hk => hc ?_⟩, hw.2⟩⟩
      rw [← hw.2, hmem k w hw.1 hk.1]

/-- To clear a list releases its waits. -/
theorem woken_of_clear (hfits : (Op.broadcast c).Fits σ) (frame : Frame σ τ)
    (hcond : τ.cond = update σ.cond c { sequence := (σ.cond c).sequence + 1, waiters := [] })
    (hcount : ∀ u, (τ.thread u).cond_sequence = (σ.thread u).cond_sequence) :
    Woken σ τ {k | ∃ w, Waiting σ k w ∧ w.cond = c} := by
  have hlist := fun c' => (cond_update hcond c').2
  refine { frame := frame, ready := fun k w hw => ?_, waiting := ?_, queued := fun c' => ?_ }
  · rw [ready, (cond_update hcond w.cond).1, hcount]
    by_cases hc : w.cond = c
    · -- the broadcast is counted, so that the wait is ready
      rw [if_pos hc, bne_iff_ne.mpr (Ne.symm (hfits k w hw hc)), Bool.true_or]
      refine iff_of_true rfl ?_
      cases hready : σ.ready k.thread w with
      | true => exact .inl rfl
      | false => exact .inr ⟨w, waiting_of_not_ready hw hready, hc⟩
    · rw [if_neg hc, ready]
      refine (or_iff_left ?_).symm
      rintro ⟨v, hv, hvc⟩
      cases (sleeping_of_waiting hv).symm.trans hw
      exact hc hvc
  · rintro k ⟨w, hw, -⟩
    exact ⟨w, hw⟩
  · rw [hlist]
    split_ifs with hc
    · rw [hc]
      have hnone : ∀ k w, ¬ ((Waiting σ k w ∧ k ∉ {k | ∃ w, Waiting σ k w ∧ w.cond = c}) ∧
          w.cond = c) := fun k w hw => hw.1.2 ⟨w, hw.1.1, hw.2⟩
      exact ⟨fun t => iff_of_false not_mem_nil fun ⟨k, w, _, hw⟩ => hnone k w hw, .nil⟩
    · refine (h.queued c').congr fun k w => ?_
      refine ⟨fun hw => ⟨hw.1.1, hw.2⟩, fun hw => ⟨⟨hw.1, ?_⟩, hw.2⟩⟩
      rintro ⟨v, hv, hvc⟩
      cases hv.symm.trans hw.1
      exact hc (hw.2.symm.trans hvc)

/-- **A signal** releases the wait of the thread that it takes. -/
theorem woken_condWakeWaiter {thread : Option ℕ}
    (hfits : ∀ t, thread.or (σ.cond c).waiters.head? = some t → t ∈ (σ.cond c).waiters →
      σ.Sole c t) :
    Woken σ (σ.condWakeWaiter c thread) {k | thread.or (σ.cond c).waiters.head? = some k.thread ∧
      ∃ w, Waiting σ k w ∧ w.cond = c} := by
  rcases σ.condWakeWaiter_cases c thread with ⟨t, ht, hmem, frame, hcond, hcount⟩ | ⟨hnot, heq⟩
  · simp only [ht, some.injEq, eq_comm (a := t)]
    exact woken_of_take h (hfits t ht hmem) frame hcond hcount
  · have hset : {k : Context | thread.or (σ.cond c).waiters.head? = some k.thread ∧
        ∃ w, Waiting σ k w ∧ w.cond = c} = ∅ := by
      ext k
      refine ⟨?_, nofun⟩
      rintro ⟨hk, w, hw, rfl⟩
      exact hnot k.thread hk (h.mem_of_waiting hw)
    rw [hset, heq]
    exact .refl h

theorem woken_signal (hfits : (Op.signal c).Fits σ) : Woken σ (σ.condWakeWaiter c none)
    {k | (σ.cond c).waiters.head? = some k.thread ∧ ∃ w, Waiting σ k w ∧ w.cond = c} :=
  woken_condWakeWaiter h fun t ht _ => hfits t ht

theorem woken_signalto (hfits : (Op.signalto c t).Fits σ) : Woken σ (σ.condWakeWaiter c (some t))
    {k | some t = some k.thread ∧ ∃ w, Waiting σ k w ∧ w.cond = c} :=
  woken_condWakeWaiter h fun u hu hmem => by
    cases hu
    exact hfits hmem

/-- **A broadcast** releases all waits on the condition variable. -/
theorem woken_broadcast (hfits : (Op.broadcast c).Fits σ) :
    Woken σ (σ.broadcast c) {k | ∃ w, Waiting σ k w ∧ w.cond = c} := by
  rcases σ.broadcast_cases c with ⟨frame, hcond, hcount⟩ | ⟨hempty, heq⟩
  · exact woken_of_clear h hfits frame hcond hcount
  · have hset : {k : Context | ∃ w, Waiting σ k w ∧ w.cond = c} = ∅ := by
      ext k
      refine ⟨?_, nofun⟩
      rintro ⟨w, hw, rfl⟩
      have hmem := h.mem_of_waiting hw
      rw [hempty] at hmem
      cases hmem
    rw [heq, hset]
    exact .refl h

end

/-- A handler begins or returns. -/
structure Shifts (σ τ : State) : Prop where
  mutex : τ.mutex = σ.mutex
  cond : τ.cond = σ.cond
  thread : τ.thread = σ.thread
  held : τ.held = σ.held
  time : τ.time = σ.time
  pc : ∀ k, τ.pc k = σ.pc k ∨ τ.pc k = .idle ∧ State.free (σ.pc k) = true
  above : ∀ k, τ.handlers k.thread < k.level → τ.pc k = .idle
  below : ∀ k, k.level < τ.handlers k.thread → State.interruptible (τ.pc k) = true

theorem Shifts.stage (h : Shifts σ τ) (k : Context) : stage τ k = stage σ k := by
  have hready : τ.ready k.thread = σ.ready k.thread := by
    funext w
    rw [ready, ready, h.cond, h.thread]
  rw [Cond.stage, Cond.stage, hready]
  rcases h.pc k with heq | ⟨hidle, hfree⟩
  · rw [heq]
  · rw [hidle]
    cases hpc : σ.pc k <;> rw [hpc] at hfree <;> first | rfl | cases hfree

theorem Shifts.inv (h : Shifts σ τ) (hinv : Inv σ) : Inv τ.tick := by
  have hwaiting : ∀ k w, Waiting τ k w ↔ Waiting σ k w := by
    intro k w
    rw [Waiting, Waiting, h.stage]
  refine
    { owned := fun m => ?_
      sound := fun k => ?_
      above := h.above
      below := h.below
      queued := fun c => ?_
      since := fun k w hk => ?_
      nested := fun k l w v s hthread hlevel hk hl => ?_ }
  · rw [tick, h.mutex, h.held]
    exact hinv.owned m
  · rcases h.pc k with heq | ⟨hidle, -⟩
    · exact (hinv.sound k).congr h.mutex heq
    · have hpc : τ.tick.pc k = .idle := hidle
      unfold Sound
      rw [hpc]
      trivial
  · have hlist : (τ.tick.cond c).waiters = (σ.cond c).waiters := by rw [tick, h.cond]
    rw [hlist]
    exact (hinv.queued c).congr fun k w => and_congr_left fun _ => hwaiting k w
  · rw [tick, h.time]
    exact lt_succ_of_lt (hinv.since k w ((hwaiting k w).mp hk))
  · exact hinv.nested k l w v s hthread hlevel ((hwaiting k w).mp hk) ((h.stage l).symm.trans hl)

section

variable (h : Inv σ)

include h

theorem Shifts.refl : Shifts σ σ :=
  ⟨rfl, rfl, rfl, rfl, rfl, fun _ => .inl rfl, h.above, h.below⟩

theorem shifts_dispatch (t : ℕ) : Shifts σ (σ.dispatch t) := by
  unfold dispatch
  split_ifs with hpc
  · refine ⟨rfl, rfl, rfl, rfl, rfl, fun _ => .inl rfl, fun k hk => ?_, fun k hk => ?_⟩
    · by_cases ht : k.thread = t
      · simp only [ht, update_self] at hk
        exact h.above k (ht ▸ lt_of_succ_lt hk)
      · simp only [update_of_ne ht] at hk
        exact h.above k hk
    · by_cases ht : k.thread = t
      · subst ht
        simp only [update_self] at hk
        rcases Nat.lt_succ_iff_lt_or_eq.mp hk with hlt | heq
        · exact h.below k hlt
        · have hself : k = σ.current k.thread := by rw [current, ← heq]
          rw [← hself] at hpc
          exact hpc
      · simp only [update_of_ne ht] at hk
        exact h.below k hk
  · exact .refl h

theorem shifts_handled (t : ℕ) : Shifts σ (σ.handled t) := by
  unfold handled
  split_ifs with hcond
  · obtain ⟨hpos, hfree⟩ := hcond
    have hpc : ∀ k, k ≠ σ.current t → (σ.goto t .idle).pc k = σ.pc k :=
      ((Own.refl σ t).goto .idle).others
    have hself : (σ.goto t .idle).pc (σ.current t) = .idle := goto_pc _ (.refl σ t)
    refine ⟨rfl, rfl, rfl, rfl, rfl, fun k => ?_, fun k hk => ?_, fun k hk => ?_⟩
    · by_cases hk : k = σ.current t
      · exact .inr (hk ▸ ⟨hself, hfree⟩)
      · exact .inl (hpc k hk)
    · by_cases hcur : k = σ.current t
      · exact hcur ▸ hself
      · refine (hpc k hcur).trans (h.above k ?_)
        by_cases ht : k.thread = t
        · subst ht
          have hne : k.level ≠ σ.handlers k.thread := fun heq => hcur (by rw [current, ← heq])
          simp only [update_self] at hk
          omega
        · simpa only [update_of_ne ht] using hk
    · have hlt : k.level < σ.handlers k.thread := by
        by_cases ht : k.thread = t
        · subst ht
          simp only [update_self] at hk
          omega
        · simpa only [update_of_ne ht] using hk
      have hcur : k ≠ σ.current t := by
        rintro rfl
        exact lt_irrefl _ hlt
      exact (congrArg State.interruptible (hpc k hcur)).trans (h.below k hlt)
  · exact .refl h

/-! ## The law, step by step -/

/-- **Every step** keeps the invariant. -/
theorem Inv.step (hfits : op.Fits σ) : Inv (σ.step op) := by
  cases op with
  | start t request => exact h.moves (moves_start h t request)
  | advance t expired => exact h.moves (moves_advance h expired hfits)
  | dispatch t => exact (shifts_dispatch h t).inv h
  | handled t => exact (shifts_handled h t).inv h
  | signal c => exact (woken_signal h hfits).inv h
  | signalto c t => exact (woken_signalto h hfits).inv h
  | broadcast c => exact (woken_broadcast h hfits).inv h

end

theorem Moves.newlyReleased_eq (hmove : Moves σ τ t) : newlyReleased σ τ.tick = ∅ := by
  ext k
  refine ⟨?_, nofun⟩
  rintro ⟨w, hw, hnot⟩
  have hτ : Released τ k w := hw
  by_cases hk : k = σ.current t
  · subst hk
    cases hmove.goes with
    | same hstage => exact hnot (hstage.symm.trans hτ)
    | began _ _ _ _ after | late _ _ _ after | timedOut _ after => cases hτ.symm.trans after
    | returned _ _ after => cases hτ.symm.trans (stage_of_waited after)
  · exact hnot ((hmove.own.stage_of_ne hk).symm.trans hτ)

theorem Shifts.newlyReleased_eq (hshift : Shifts σ τ) : newlyReleased σ τ.tick = ∅ := by
  ext k
  refine ⟨?_, nofun⟩
  rintro ⟨w, hw, hnot⟩
  exact hnot ((hshift.stage k).symm.trans hw)

theorem Shifts.turn (hshift : Shifts σ τ) (k : Context) : Turn σ τ.tick k := by
  refine .same (hshift.stage k) fun w result hw => ?_
  have hτ : τ.pc k = .waited w result := hw
  rcases hshift.pc k with heq | ⟨hidle, -⟩
  · exact heq.symm.trans hτ
  · cases hidle.symm.trans hτ

theorem Woken.turn (hwoken : Woken σ τ S) (k : Context) : Turn σ τ.tick k := by
  by_cases hk : k ∈ S
  · obtain ⟨w, hw⟩ := hwoken.waiting k hk
    exact .released hw (hwoken.stage_of_mem hk hw)
  · refine .same (hwoken.stage_of_not_mem hk) fun w result hw => ?_
    exact (congrFun hwoken.frame.pc k).symm.trans hw

section

variable (h : Inv σ)

include h

theorem Moves.turn (hmove : Moves σ τ t) (k : Context) : Turn σ τ.tick k := by
  by_cases hk : k = σ.current t
  · subst hk
    cases hmove.goes with
    | same hstage waited => exact .same hstage waited
    | began before same since _ after => exact .began before same since after
    | @late _ w before same fresh after lists =>
      have hlist : (τ.tick.cond w.cond).waiters = (σ.cond w.cond).waiters := lists w.cond
      exact .late before same after (hlist ▸ fresh)
    | @timedOut w before after lists =>
      have hlist : (τ.tick.cond w.cond).waiters = (σ.cond w.cond).waiters.erase t :=
        (lists w.cond).trans (if_pos rfl)
      exact .timedOut before after (hlist ▸ (h.queued w.cond).nodup.not_mem_erase)
    | @returned w _ before ended after owner count lists =>
      have hlist : (τ.tick.cond w.cond).waiters = (σ.cond w.cond).waiters := lists w.cond
      refine .returned before ended after owner count (hlist ▸ h.not_mem before fun hw => ?_)
      cases hw.symm.trans before
  · refine .same (hmove.own.stage_of_ne hk) fun w result hw => ?_
    exact (hmove.own.others k hk).symm.trans hw

/-- Every step makes one of the turns of a wait. -/
theorem Inv.turn (hfits : op.Fits σ) (k : Context) : Turn σ (σ.step op) k := by
  cases op with
  | start t request => exact (moves_start h t request).turn h k
  | advance t expired => exact (moves_advance h expired hfits).turn h k
  | dispatch t => exact (shifts_dispatch h t).turn k
  | handled t => exact (shifts_handled h t).turn k
  | signal c => exact (woken_signal h hfits).turn k
  | signalto c t => exact (woken_signalto h hfits).turn k
  | broadcast c => exact (woken_broadcast h hfits).turn k

end
/-- **A wait that was released** goes on with the next section of its thread. -/
theorem progress_advance (hfits : (Op.advance t expired).Fits σ) (hw : Released σ (σ.current t) w) :
    Progress σ (σ.advance t expired) (σ.current t) w := by
  have hself : ∀ {υ : State} {pc}, Own σ υ t → (υ.goto t pc).pc (σ.current t) = pc :=
    fun own => goto_pc _ own
  have hleave : (σ.leave t w .ok).pc (σ.current t) = .relocking w .ok false :=
    leave_pc w .ok (.refl σ t)
  have hready : ∀ v, (σ.pc (σ.current t)).sleeping = some v → v = w ∧ σ.ready t w = true := by
    intro v hv
    have hstage := (stage_current hv rfl).symm.trans hw
    cases hv' : σ.ready t v with
    | true =>
      rw [hv'] at hstage
      cases hstage
      exact ⟨rfl, hv'⟩
    | false =>
      rw [hv'] at hstage
      cases hstage
  cases hpc : σ.pc (σ.current t) with
  | asleep v =>
    obtain ⟨rfl, hready⟩ := hready v (by rw [hpc]; rfl)
    refine .inl ⟨by rw [hpc]; rfl, ?_⟩
    simp only [advance, hpc, hready, if_true]
    exact hleave
  | polling v =>
    obtain ⟨rfl, hready⟩ := hready v (by rw [hpc]; rfl)
    refine .inl ⟨by rw [hpc]; rfl, ?_⟩
    simp only [advance, hpc, loopTop, hready, if_true]
    exact hleave
  | relocking v r looping =>
    rw [Released, stage, hpc] at hw
    cases hw
    refine .inr (.inl ⟨⟨looping, hpc⟩, ?_⟩)
    have hfree := fits_relocking hfits hpc
    rcases nativeMutexLock_cases (σ.mutex w.mutex) t none looping expired with
      ⟨-, heq⟩ | ⟨hsome, -⟩
    · left
      simp only [advance, hpc, heq]
      exact hself ((Own.refl σ t).setMutex _ _ _)
    · obtain ⟨u, hu⟩ := ne_none_iff_exists'.mp hsome
      exact .inr ⟨u, fun heq => hfree (hu.trans (congrArg some heq)), hu⟩
  | restoring v r =>
    rw [Released, stage, hpc] at hw
    cases hw
    refine .inr (.inr ⟨hpc, ?_⟩)
    simp only [advance, hpc]
    exact hself ((Own.refl σ t).setMutex _ _ _)
  | _ =>
    rw [Released, stage, hpc] at hw
    cases hw

section

variable (h : Inv σ)

include h

/-- **Every step** obeys the law. -/
theorem Inv.lawful (hfits : op.Fits σ) : Lawful σ op where
  owner m t u ht hu := by
    rw [Holds, ← (h.owned m).owner] at ht hu
    exact some.inj (ht.symm.trans hu)
  signal c hop hsome := by
    subst hop
    obtain ⟨l, v, hl, hlc⟩ := hsome
    have hmem := h.mem_of_waiting hl
    rw [hlc] at hmem
    have hreleased := (woken_signal h hfits).newlyReleased_eq
    have hordered := (h.queued c).ordered
    cases hlist : (σ.cond c).waiters with
    | nil =>
      rw [hlist] at hmem
      cases hmem
    | cons t rest =>
      obtain ⟨k, w, rfl, hw, hwc⟩ := ((h.queued c).mem t).mp (by rw [hlist]; exact .head _)
      refine ⟨k, w, hw, hwc, h.since k w hw, fun x y hy hyc hne => ?_, ?_⟩
      · have hx := h.mem_of_waiting hy
        rw [hyc, hlist] at hx
        rw [hlist, pairwise_cons] at hordered
        refine hordered.1 x.thread ((mem_cons.mp hx).resolve_left fun heq => hne ?_) k x w y rfl rfl
          ⟨hw, hwc⟩ ⟨hy, hyc⟩
        exact (h.unique hy hw heq (hyc.trans hwc.symm)).1
      · refine hreleased.trans ?_
        rw [hlist]
        ext x
        constructor
        · rintro ⟨hx, y, hy, hyc⟩
          exact (h.unique hy hw (some.inj hx).symm (hyc.trans hwc.symm)).1
        · rintro rfl
          exact ⟨rfl, w, hw, hwc⟩
  signal_nobody c hop hnone := by
    subst hop
    refine (woken_signal h hfits).newlyReleased_eq.trans ?_
    ext k
    exact iff_of_false (fun ⟨_, w, hw, hwc⟩ => hnone k w hw hwc) id
  signalto c t hop := by
    subst hop
    have hreleased := (woken_signalto h hfits).newlyReleased_eq
    simp only [some.injEq, eq_comm (a := t)] at hreleased
    refine ⟨hreleased, hreleased.symm ▸ fun k hk l hl => ?_⟩
    obtain ⟨hk, w, hw, hwc⟩ := hk
    obtain ⟨hl, v, hv, hvc⟩ := hl
    exact (h.unique hw hv (hk.trans hl.symm) (hwc.trans hvc.symm)).1
  broadcast c hop := by
    subst hop
    exact (woken_broadcast h hfits).newlyReleased_eq
  others hop := by
    cases op with
    | start t request => exact (moves_start h t request).newlyReleased_eq
    | advance t expired => exact (moves_advance h expired hfits).newlyReleased_eq
    | dispatch t => exact (shifts_dispatch h t).newlyReleased_eq
    | handled t => exact (shifts_handled h t).newlyReleased_eq
    | signal c => exact absurd rfl (hop c).1
    | signalto c t => exact absurd rfl ((hop c).2.2 t)
    | broadcast c => exact absurd rfl (hop c).2.1
  progress t expired w hop hw := by
    subst hop
    have hprogress := progress_advance hfits hw
    exact hprogress
  listed c := (h.queued c).mem
  entering k w hpc := by
    have hsound := h.sound k
    unfold Sound at hsound
    rwa [hpc] at hsound
  turns := h.turn hfits

end

/-! ## Runs -/

theorem inv_init (type : ℕ → ℕ) : Inv (init type) where
  owned m := ⟨fun t => by simp [init], fun t ht => by simp [init] at ht, fun _ t => Nat.zero_le 1⟩
  sound k := trivial
  above k _ := rfl
  below k hk := absurd hk (Nat.not_lt_zero _)
  queued c := ⟨fun t => iff_of_false not_mem_nil fun ⟨k, w, _, hw, _⟩ => (nomatch hw), .nil⟩
  since k w hk := nomatch hk
  nested k l w v s _ _ hk _ := nomatch hk

theorem Inv.foldl (h : Inv σ) {ops : List State.Op} (hfits : σ.Fits ops) :
    Inv (ops.foldl State.step σ) := by
  induction ops generalizing σ with
  | nil => exact h
  | cons op ops ih => exact ih (h.step hfits.1) hfits.2

theorem Turn.released_or (h : Turn σ τ k) (hw : Released σ k w) :
    Released τ k w ∨ τ.pc k = .waited w .ok := by
  cases h with
  | same hstage => exact .inl (hstage.trans hw)
  | began before | late before => cases hw.symm.trans (stage_of_entering before)
  | released before | timedOut before => cases hw.symm.trans before
  | returned before _ after =>
    cases hw.symm.trans before
    exact .inr after

/-- **A wait that was released** is released until it returns `OK`. -/
theorem Inv.released_until_ok (h : Inv σ) (hw : Released σ k w) {more : List State.Op}
    (hfits : σ.Fits more) : Released (more.foldl State.step σ) k w ∨
      ∃ n ≤ more.length, ((more.take n).foldl State.step σ).pc k = .waited w .ok := by
  induction more generalizing σ with
  | nil => exact .inl hw
  | cons op more ih =>
    rcases (h.turn hfits.1 k).released_or hw with hreleased | hok
    · refine (ih (h.step hfits.1) hreleased hfits.2).imp id ?_
      rintro ⟨n, hn, hok⟩
      exact ⟨n + 1, Nat.succ_le_succ hn, hok⟩
    · exact .inr ⟨1, Nat.succ_le_succ (Nat.zero_le _), hok⟩

/-- **Condition variables never lose or duplicate a wake-up.** After every interleaving of steps
that fit, the next one obeys the law, and a wait that was released is released until it returns
`OK`. -/
theorem cond_wakeups (type : ℕ → ℕ) (ops : List State.Op) (hfits : (init type).Fits ops) :
    (∀ op, op.Fits (run type ops) → Lawful (run type ops) op) ∧
      ∀ more k w, (run type ops).Fits more → Released (run type ops) k w →
        Released (run type (ops ++ more)) k w ∨
          ∃ n ≤ more.length, (run type (ops ++ more.take n)).pc k = .waited w .ok := by
  have hinv : Inv (run type ops) := (inv_init type).foldl hfits
  refine ⟨fun op hop => hinv.lawful hop, fun more k w hmore hw => ?_⟩
  simp only [run, foldl_append]
  exact hinv.released_until_ok hw hmore

/-! ## Handlers that wait -/

/-- A thread waits with the mutex 0 on the condition variable 0, and a handler runs there. -/
def interrupted : List State.Op :=
  [.start 0 (.lock 0 none), .advance 0 false, .start 0 (.wait 0 0 .forever), .advance 0 false,
    .advance 0 false, .dispatch 0]

/-- The handler waits itself, with the mutex 1. -/
def nested (c : ℕ) : List State.Op :=
  interrupted ++ [.start 0 (.lock 1 none), .advance 0 false, .start 0 (.wait c 1 .forever),
    .advance 0 false]

/-- The handler leaves the mutex of the wait locked, and the wait is released. -/
def kept : List State.Op :=
  interrupted ++ [.start 0 (.lock 0 none), .advance 0 false, .handled 0, .broadcast 0,
    .advance 0 false]

/-- The wait that is interrupted. -/
def outer : Wait :=
  { cond := 0, mutex := 0, timing := .forever, recurse := 1, since := 3, depth := 1 }

/-- The wait of the handler. -/
def inner (c : ℕ) : Wait :=
  { cond := c, mutex := 1, timing := .forever, recurse := 1, since := 9, depth := 1 }

/-- **Handlers.** A signal for the wait of a handler releases the interrupted wait too, whether
the two are on different condition variables or on one; and a wait that was released does not
return `OK` when a handler has kept its mutex. -/
theorem cond_wakeups_nested :
    ¬ Lawful (run (fun _ => 0) (nested 1)) (.signal 1) ∧
      ¬ Lawful (run (fun _ => 0) (nested 0)) (.signal 0) ∧
      ¬ Lawful (run (fun _ => 0) kept) (.advance 0 false) := by
  have hboth : ∀ c, Waiting (run (fun _ => 0) (nested c)) ⟨0, 1⟩ (inner c) →
      (∀ k ∈ [(⟨0, 0⟩ : Context), ⟨0, 1⟩], k ∈ newlyReleased (run (fun _ => 0) (nested c))
        ((run (fun _ => 0) (nested c)).step (.signal c))) →
      ¬ Lawful (run (fun _ => 0) (nested c)) (.signal c) := by
    intro c hw hmem h
    obtain ⟨k, -, -, -, -, -, hreleased⟩ := h.signal c rfl ⟨_, _, hw, rfl⟩
    rw [hreleased] at hmem
    have houter := hmem ⟨0, 0⟩ (.head _)
    have hinner := hmem ⟨0, 1⟩ (.tail _ (.head _))
    cases houter.trans hinner.symm
  unfold Waiting at hboth
  refine ⟨hboth 1 (by decide +kernel) ?_, hboth 0 (by decide +kernel) ?_, fun h => ?_⟩
  · simp only [forall_mem_cons, newlyReleased, Released]
    exact ⟨⟨outer, by decide +kernel⟩, ⟨inner 1, by decide +kernel⟩, forall_mem_nil _⟩
  · simp only [forall_mem_cons, newlyReleased, Released]
    exact ⟨⟨outer, by decide +kernel⟩, ⟨inner 0, by decide +kernel⟩, forall_mem_nil _⟩
  · have hkept := (h.turns ⟨0, 0⟩).released_or (w := outer)
    unfold Released at hkept
    exact absurd hkept (by decide +kernel)

/-- A handler that uses the mutex of the wait and gives it back; then another thread has it. -/
def signalled : List State.Op :=
  interrupted ++ [.start 0 (.lock 0 none), .advance 0 false, .start 0 (.unlock 0), .handled 0,
    .start 1 (.lock 0 none), .advance 1 false]

/-- The wait takes its mutex back once the other thread has unlocked it. -/
def resumed : List State.Op :=
  [.start 1 (.unlock 0), .advance 0 false, .advance 0 false, .advance 0 false]

/-- A signal to a wait in which a handler has used the mutex. -/
theorem cond_wakeups_signalled :
    Lawful (run (fun _ => 2) signalled) (.signal 0) ∧
      (Released (run (fun _ => 2) ((signalled ++ [.signal 0]) ++ resumed)) ⟨0, 0⟩ outer ∨
        ∃ n ≤ resumed.length, (run (fun _ => 2) ((signalled ++ [.signal 0]) ++ resumed.take n)).pc
          ⟨0, 0⟩ = .waited outer .ok) := by
  have hreleased : Released (run (fun _ => 2) (signalled ++ [.signal 0])) ⟨0, 0⟩ outer := by
    unfold Released
    decide +kernel
  have hfits : (init fun _ => 2).Fits (signalled ++ [.signal 0]) :=
    ⟨trivial, by decide +kernel, trivial, by decide +kernel, by decide +kernel, trivial, trivial,
      by decide +kernel, trivial, trivial, trivial, by decide +kernel, by decide +kernel, trivial⟩
  exact ⟨(cond_wakeups _ signalled ⟨trivial, by decide +kernel, trivial, by decide +kernel,
      by decide +kernel, trivial, trivial, by decide +kernel, trivial, trivial, trivial,
      by decide +kernel, trivial⟩).1 _ (by decide +kernel),
    (cond_wakeups _ _ hfits).2 resumed _ _
      ⟨trivial, by decide +kernel, by decide +kernel, by decide +kernel, trivial⟩ hreleased⟩

end MagnusPS5.Kernel.Cond
