/-
Condition variables and the mutexes they are used with (`pthread.cpp`): `PthreadCondWait`,
`PthreadCondTimedwait` and `PthreadCondTimedwaitAbs`, `PthreadCondSignal`, `PthreadCondSignalto`
and `PthreadCondBroadcast`, and `NativeMutexLock`, `NativeMutexTrylock` and `NativeMutexUnlock`.

What a call does to a condition variable it does while it holds the mutex `m` of it, and to a
mutex while it holds `m` of that one; one step is one such section. A waiter gives `m` up in
`wait_for`, which may return at any time, and while it takes its pending signals. Threads take
their steps in any order, and signals and broadcasts, which do not look at the thread they come
from, happen at any time.

A loop that waits calls `KernelDispatchPendingSignalForCurrentThread`, which may run a handler of
the guest there. The handler makes calls of its own for the same `Pthread`, and may be interrupted
in turn: a thread has a stack of contexts, of which only the innermost one takes steps.

`time`, `held`, `since` and `depth` are not in the source: they record when a wait began, how
often a thread has locked a mutex, and the count of the mutex before the wait.
-/
import MagnusPS5.Kernel.Rwlock

namespace MagnusPS5.Kernel.Cond

open Function (update)
open Rwlock (UINT32_MAX)

/-! ## Objects -/

/-- Where a thread runs: with `level` handlers that have not returned. -/
structure Context where
  thread : ℕ
  level : ℕ
  deriving DecidableEq

/-- `OK` and the error codes. -/
inductive Result
  | ok | etimedout | eperm | einval | edeadlk | eagain | ebusy
  deriving DecidableEq

/-- The timeout of a wait: `PthreadCondWait`, `PthreadCondTimedwait`, and
`PthreadCondTimedwaitAbs` with what `NativeCondDeadlineFromAbs` says. -/
inductive Timing
  | forever
  | relative (usec : ℕ)
  | absolute (valid : Bool)
  deriving DecidableEq

/-- `PthreadMutexPrivate`. A mutex of type 2 is recursive. -/
structure PthreadMutexPrivate where
  owner : Option ℕ := none
  count : ℕ := 0
  type : ℕ
  deriving DecidableEq

structure PthreadCondPrivate where
  sequence : BitVec 64 := 0
  waiters : List ℕ := []
  deriving DecidableEq

/-- `PthreadPrivate`, what waits use of it. -/
structure PthreadPrivate where
  cond_sequence : BitVec 64 := 0
  waiting_cond : Option ℕ := none
  deriving DecidableEq

/-- A wait: its arguments, its locals, and when it began with which count. -/
structure Wait where
  cond : ℕ
  mutex : ℕ
  timing : Timing
  sequence : BitVec 64 := 0
  thread_sequence : BitVec 64 := 0
  recurse : ℕ := 0
  since : ℕ := 0
  depth : ℕ := 0
  deriving DecidableEq

/-- Where a context is. -/
inductive Pc
  | idle
  /-- In `NativeMutexLock`, before its first check or in its loop. -/
  | locking (m : ℕ) (timeout_us : Option ℕ) (looping : Bool)
  /-- A wait past its check of the owner. -/
  | entering (w : Wait)
  /-- In `wait_for`. -/
  | asleep (w : Wait)
  /-- About to call `KernelDispatchPendingSignalForCurrentThread`, in it or behind it. -/
  | polling (w : Wait)
  /-- In `NativeMutexLockRecurse`, before it has the mutex. -/
  | relocking (w : Wait) (result : Result) (looping : Bool)
  /-- It has the mutex and has not set the count. -/
  | restoring (w : Wait) (result : Result)
  /-- A call has returned that never gave its mutex away. -/
  | returned (result : Result)
  /-- A wait has returned. -/
  | waited (w : Wait) (result : Result)
  deriving DecidableEq

/-- All objects, by number, and where the contexts are; `held` is by mutex and thread. -/
structure State where
  mutex : ℕ → PthreadMutexPrivate
  cond : ℕ → PthreadCondPrivate
  thread : ℕ → PthreadPrivate
  pc : Context → Pc
  handlers : ℕ → ℕ
  held : ℕ → ℕ → ℕ
  time : ℕ

namespace State

variable (σ : State)

/-- Unused objects; `type` is the type of each mutex. -/
def init (type : ℕ → ℕ) : State where
  mutex m := { type := type m }
  cond _ := {}
  thread _ := {}
  pc _ := .idle
  handlers _ := 0
  held _ _ := 0
  time := 0

variable (t : ℕ)

/-- The context of a thread that takes its steps. -/
def current : Context := ⟨t, σ.handlers t⟩

def goto (pc : Pc) : State := { σ with pc := update σ.pc (σ.current t) pc }

/-- The thread has locked or unlocked the mutex, `count` times in all. -/
def setMutex (m : ℕ) (mutex : PthreadMutexPrivate) (t count : ℕ) : State :=
  { σ with
    mutex := update σ.mutex m mutex
    held := update σ.held m (update (σ.held m) t count) }

/-! ## Waiters -/

variable (c : ℕ)

def setWaiters (waiters : List ℕ) : State :=
  { σ with cond := update σ.cond c { σ.cond c with waiters := waiters } }

def setWaitingCond (waiting_cond : Option ℕ) : State :=
  { σ with thread := update σ.thread t { σ.thread t with waiting_cond := waiting_cond } }

/-- `thread->waiting_cond = nullptr` where it is this condition variable. -/
def leaveCond (c t : ℕ) : State :=
  if (σ.thread t).waiting_cond = some c then σ.setWaitingCond t none else σ

def condAddWaiter (c t : ℕ) : State :=
  (σ.setWaitingCond t (some c)).setWaiters c ((σ.cond c).waiters ++ [t])

def condRemoveWaiter (c t : ℕ) : State :=
  if t ∈ (σ.cond c).waiters then
    (σ.setWaiters c ((σ.cond c).waiters.erase t)).leaveCond c t
  else σ

/-- `thread->cond_sequence++` -/
def countSignal : State :=
  { σ with
    thread := update σ.thread t
      { σ.thread t with cond_sequence := (σ.thread t).cond_sequence + 1 } }

/-- `CondWakeWaiter`; without a thread it takes the first one. -/
def condWakeWaiter (thread : Option ℕ) : State :=
  match thread.or (σ.cond c).waiters.head? with
  | none => σ
  | some t =>
    if t ∈ (σ.cond c).waiters then
      ((σ.setWaiters c ((σ.cond c).waiters.erase t)).leaveCond c t).countSignal t
    else σ

def condClearWaiters : State :=
  ((σ.cond c).waiters.foldl (fun σ t => σ.leaveCond c t) σ).setWaiters c []

/-- `cond->sequence++` -/
def countBroadcast : State :=
  { σ with cond := update σ.cond c { σ.cond c with sequence := (σ.cond c).sequence + 1 } }

/-- `PthreadCondBroadcast`. -/
def broadcast : State :=
  if (σ.cond c).waiters.isEmpty then σ else (σ.countBroadcast c).condClearWaiters c

/-- The lambda `ready` of a wait. -/
def ready (w : Wait) : Bool :=
  (σ.cond w.cond).sequence != w.sequence || (σ.thread t).cond_sequence != w.thread_sequence

/-! ## Mutexes -/

variable (mutex : PthreadMutexPrivate)

/-- The first check of `NativeMutexLock` and a pass of its loop, which does not check again
whether the thread is the owner: the mutex after it, and the result unless the thread has to
wait. -/
def nativeMutexLock (self : ℕ) (timeout_us : Option ℕ)
    (looping expired : Bool) : PthreadMutexPrivate × Option Result :=
  if looping = false ∧ mutex.owner = some self then
    if mutex.type = 2 then
      if mutex.count = UINT32_MAX then (mutex, some .eagain)
      else ({ mutex with count := mutex.count + 1 }, some .ok)
    else if timeout_us.isSome then (mutex, some .etimedout)
    else (mutex, some .edeadlk)
  else if mutex.owner = none then ({ mutex with owner := some self, count := 1 }, some .ok)
  else if timeout_us = some 0 ∨ (timeout_us.isSome ∧ expired) then (mutex, some .etimedout)
  else (mutex, none)

def nativeMutexTrylock (self : ℕ) : PthreadMutexPrivate × Result :=
  if mutex.owner = some self then
    if mutex.type = 2 then
      if mutex.count = UINT32_MAX then (mutex, .eagain)
      else ({ mutex with count := mutex.count + 1 }, .ok)
    else (mutex, .ebusy)
  else if mutex.owner = none then ({ mutex with owner := some self, count := 1 }, .ok)
  else (mutex, .ebusy)

/-- `NativeMutexUnlock` without a pointer for the count. -/
def nativeMutexUnlock (self : ℕ) : PthreadMutexPrivate × Result :=
  if mutex.owner = some self then
    if mutex.type = 2 ∧ 1 < mutex.count then ({ mutex with count := mutex.count - 1 }, .ok)
    else ({ mutex with owner := none, count := 0 }, .ok)
  else (mutex, .eperm)

/-- `NativeMutexUnlock` of a wait: it sets the count to 1 first, and gives the old one back. -/
def nativeMutexRelease (self : ℕ) : PthreadMutexPrivate × Option ℕ :=
  if mutex.owner = some self then ({ mutex with owner := none, count := 0 }, some mutex.count)
  else (mutex, none)

/-! ## Calls -/

/-- What a thread asks for. -/
inductive Request
  | lock (m : ℕ) (timeout_us : Option ℕ)
  | trylock (m : ℕ)
  | unlock (m : ℕ)
  | wait (c m : ℕ) (timing : Timing)
  deriving DecidableEq

/-- The call has set the mutex and comes to a result. -/
def finish (t m : ℕ) (mutex : PthreadMutexPrivate) (held : ℕ) (result : Result) : State :=
  (σ.setMutex m mutex t held).goto t (.returned result)

/-- A call up to its return or its first section. -/
def enter : Request → State
  | .lock m timeout_us => σ.goto t (.locking m timeout_us false)
  | .trylock m =>
    let (mutex, result) := nativeMutexTrylock (σ.mutex m) t
    σ.finish t m mutex (if result = .ok then σ.held m t + 1 else σ.held m t) result
  | .unlock m =>
    let (mutex, result) := nativeMutexUnlock (σ.mutex m) t
    σ.finish t m mutex (if result = .ok then σ.held m t - 1 else σ.held m t) result
  | .wait c m timing =>
    if timing = .absolute false then σ.goto t (.returned .einval)
    else if (σ.mutex m).owner ≠ some t then σ.goto t (.returned .eperm)
    else σ.goto t (.entering
      { cond := c, mutex := m, timing := timing, depth := (σ.mutex m).count })

/-- The last lines of a wait. -/
def kernelError : Result → Result
  | .ok => .ok
  | .etimedout => .etimedout
  | .eperm => .eperm
  | _ => .einval

/-- The end of the section of a wait on its condition variable. -/
def leave (w : Wait) (result : Result) : State :=
  (σ.condRemoveWaiter w.cond t).goto t (.relocking w result false)

/-- The loop of a wait from its condition on. -/
def loopTop (w : Wait) (expired : Bool) : State :=
  if σ.ready t w then σ.leave t w .ok
  else if w.timing ≠ .forever ∧ expired then σ.leave t w .etimedout
  else σ.goto t (.asleep w)

/-- The first section of a wait, which gives all locks of the mutex away. -/
def beginWait (w : Wait) (expired : Bool) : State :=
  let w := { w with
    sequence := (σ.cond w.cond).sequence
    thread_sequence := (σ.thread t).cond_sequence
    since := σ.time }
  let σ := σ.condAddWaiter w.cond t
  match nativeMutexRelease (σ.mutex w.mutex) t with
  | (_, none) => (σ.condRemoveWaiter w.cond t).goto t (.returned .eperm)
  | (mutex, some recurse) =>
    let σ := σ.setMutex w.mutex mutex t 0
    let w := { w with recurse := recurse }
    if w.timing = .relative 0 then σ.leave t w .etimedout else σ.loopTop t w expired

/-- The next section of a thread. `expired` is what the clock says if the call asks it. -/
def advance (expired : Bool) : State :=
  match σ.pc (σ.current t) with
  | .idle => σ
  | .locking m timeout_us looping =>
    match nativeMutexLock (σ.mutex m) t timeout_us looping expired with
    | (_, none) => σ.goto t (.locking m timeout_us true)
    | (mutex, some result) =>
      σ.finish t m mutex (if result = .ok then σ.held m t + 1 else σ.held m t) result
  | .entering w => σ.beginWait t w expired
  | .asleep w => if σ.ready t w then σ.leave t w .ok else σ.goto t (.polling w)
  | .polling w => σ.loopTop t w expired
  | .relocking w result looping =>
    match nativeMutexLock (σ.mutex w.mutex) t none looping expired with
    | (_, none) => σ.goto t (.relocking w result true)
    | (mutex, some .ok) =>
      (σ.setMutex w.mutex mutex t (σ.held w.mutex t + 1)).goto t (.restoring w result)
    | (_, some lock_result) =>
      σ.goto t (.waited w (kernelError (if result = .ok then lock_result else result)))
  | .restoring w result =>
    let count := max w.recurse 1
    (σ.setMutex w.mutex { σ.mutex w.mutex with count := count } t count).goto t
      (.waited w (kernelError result))
  | .returned _ => σ
  | .waited _ _ => σ

/-- The context makes no call. -/
def free : Pc → Bool
  | .idle => true
  | .returned _ => true
  | .waited _ _ => true
  | _ => false

/-- The context is in a loop that calls `KernelDispatchPendingSignalForCurrentThread`. -/
def interruptible : Pc → Bool
  | .locking _ _ looping => looping
  | .polling _ => true
  | .relocking _ _ looping => looping
  | _ => false

/-- A thread that is in no call makes one. -/
def start (request : Request) : State :=
  if free (σ.pc (σ.current t)) then σ.enter t request else σ

/-- `KernelDispatchPendingSignalForCurrentThread` runs a handler. -/
def dispatch : State :=
  if interruptible (σ.pc (σ.current t)) then
    { σ with handlers := update σ.handlers t (σ.handlers t + 1) }
  else σ

/-- The handler returns. -/
def handled : State :=
  if 0 < σ.handlers t ∧ free (σ.pc (σ.current t)) then
    { σ.goto t .idle with handlers := update σ.handlers t (σ.handlers t - 1) }
  else σ

/-- What can happen next. -/
inductive Op
  | start (t : ℕ) (request : Request)
  | advance (t : ℕ) (expired : Bool)
  | dispatch (t : ℕ)
  | handled (t : ℕ)
  | signal (c : ℕ)
  | signalto (c t : ℕ)
  | broadcast (c : ℕ)
  deriving DecidableEq

def tick : State := { σ with time := σ.time + 1 }

def step (σ : State) (op : Op) : State :=
  (match op with
    | .start t request => σ.start t request
    | .advance t expired => σ.advance t expired
    | .dispatch t => σ.dispatch t
    | .handled t => σ.handled t
    | .signal c => σ.condWakeWaiter c none
    | .signalto c t => σ.condWakeWaiter c (some t)
    | .broadcast c => σ.broadcast c).tick

/-- A run of any interleaving. -/
def run (type : ℕ → ℕ) (ops : List Op) : State := ops.foldl step (init type)

end State

end MagnusPS5.Kernel.Cond
