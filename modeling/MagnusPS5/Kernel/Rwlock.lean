/-
`PthreadRwlockPrivate` (`pthread.cpp`), the reader-writer lock of the kernel.

What a call does to the lock it does while it holds the mutex of the lock, and a blocking
call gives the mutex up only in `wait_for`, at the end of one pass of its loop. One step
here is one such pass of `RwlockLockCooperative`, or a whole `Tryrdlock`, `Trywrlock` or
`Unlock`; calls take their steps in any order. A thread that takes its pending signals
between two passes may make further calls from its handler, so a thread can have any number
of calls that have not returned.

The counters are `uint32_t` and are incremented without a check.
-/
import MagnusPS5.Lib.Ledger

namespace MagnusPS5.Kernel.Rwlock

open Lib.Ledger

/-! ## The lock -/

/-- The largest `uint32_t`. -/
@[irreducible] def UINT32_MAX : ℕ := 4294967295

/-- `count++` on `uint32_t`. -/
def increment (count : ℕ) : ℕ := if count = UINT32_MAX then 0 else count + 1

/-- `count--` on `uint32_t`. -/
def decrement (count : ℕ) : ℕ := if count = 0 then UINT32_MAX else count - 1

theorem increment_of_lt {count : ℕ} (h : count < UINT32_MAX) : increment count = count + 1 := by
  rw [increment, if_neg (by omega)]

@[simp] theorem increment_max : increment UINT32_MAX = 0 := by
  rw [increment, if_pos rfl]

theorem decrement_of_pos {count : ℕ} (h : 0 < count) : decrement count = count - 1 := by
  rw [decrement, if_neg (by omega)]

@[simp] theorem decrement_increment (count : ℕ) : decrement (increment count) = count := by
  rw [increment]
  split
  · rw [decrement, if_pos rfl]
    omega
  · rw [decrement_of_pos (Nat.succ_pos _)]
    omega

/-- What a call returns: `OK` and the error codes of the kernel. -/
inductive Result
  | ok | einval | ebusy | edeadlk | etimedout | eperm
  deriving DecidableEq

structure Reader where
  thread : ℕ
  count : ℕ
  deriving DecidableEq

structure PthreadRwlockPrivate where
  writer : Option ℕ := none
  writer_count : ℕ := 0
  reader_count : ℕ := 0
  waiting_writers : ℕ := 0
  readers : List Reader := []
  deriving DecidableEq

variable (rwlock : PthreadRwlockPrivate) (self : ℕ)

def rwlockFindReader (thread : ℕ) : Option Reader :=
  rwlock.readers.find? (fun reader => reader.thread = thread)

/-- `reader->count++` on the entry that `RwlockFindReader` finds. -/
def countUp (thread : ℕ) : List Reader → List Reader
  | [] => []
  | reader :: rest =>
    if reader.thread = thread then { reader with count := increment reader.count } :: rest
    else reader :: countUp thread rest

def rwlockAddReader (thread : ℕ) : PthreadRwlockPrivate :=
  { rwlock with
    readers :=
      if (rwlockFindReader rwlock thread).isSome then countUp thread rwlock.readers
      else rwlock.readers ++ [{ thread := thread, count := 1 }]
    reader_count := increment rwlock.reader_count }

/-- The loop of `RwlockRemoveReader` over the entries; nothing where the thread has none. -/
def countDown (thread : ℕ) : List Reader → Option (List Reader)
  | [] => none
  | reader :: rest =>
    if reader.thread = thread then
      let count := decrement reader.count
      some (if count = 0 then rest else { reader with count := count } :: rest)
    else (countDown thread rest).map (fun rest => reader :: rest)

def rwlockRemoveReader (thread : ℕ) : Option PthreadRwlockPrivate :=
  (countDown thread rwlock.readers).map fun readers =>
    { rwlock with readers := readers, reader_count := decrement rwlock.reader_count }

/-- The condition under which a read lock is granted. -/
def grantsRead : Bool :=
  (rwlock.writer.isNone &&
      (rwlock.waiting_writers == 0 || (rwlockFindReader rwlock self).isSome)) ||
    rwlock.writer == some self

/-- The condition under which a write lock would wait for its own thread. -/
def deadlocks : Bool :=
  rwlock.writer == some self || (rwlockFindReader rwlock self).isSome

/-- The condition under which a write lock is granted. -/
def grantsWrite : Bool := rwlock.writer.isNone && rwlock.reader_count == 0

/-- The lock once a writer has it. -/
def setWriter : PthreadRwlockPrivate := { rwlock with writer := some self, writer_count := 1 }

/-- `unregister_writer_wait`, a lambda of `RwlockLockCooperative`. -/
def unregisterWriterWait (writer_wait_registered : Bool) : PthreadRwlockPrivate :=
  if writer_wait_registered then
    { rwlock with waiting_writers := decrement rwlock.waiting_writers }
  else rwlock

/-- The registration of a writer that has to wait. -/
def registerWriterWait (writer_wait_registered : Bool) : PthreadRwlockPrivate :=
  if writer_wait_registered then rwlock
  else { rwlock with waiting_writers := increment rwlock.waiting_writers }

/-! ## Calls -/

/-- What a call asks for. -/
inductive Request
  /-- `RwlockLockCooperative`; no timeout where the pointer is null. -/
  | lock (write : Bool) (timeout_us : Option ℕ)
  | tryrdlock
  | trywrlock
  | unlock
  deriving DecidableEq

def pthreadRwlockRdlock : Request := .lock false none
def pthreadRwlockTimedrdlock (usec : ℕ) : Request := .lock false (some usec)
def pthreadRwlockTimedwrlock (usec : ℕ) : Request := .lock true (some usec)
def pthreadRwlockWrlock : Request := .lock true none

/-- Where a call is. -/
inductive Pc
  /-- In the loop of `RwlockLockCooperative`, before its next pass. -/
  | loop (writer_wait_registered : Bool)
  | returned (result : Result)
  /-- The process has stopped at an `EXIT_IF`. -/
  | aborted
  deriving DecidableEq

/-- The timeout at the end of a pass; `late` says that the deadline has passed. -/
def expired (timeout_us : Option ℕ) (late : Bool) : Bool :=
  timeout_us.isSome && (timeout_us == some 0 || late)

/-- The end of a pass: the call times out, or it sleeps and goes around again. -/
def endPass (timeout_us : Option ℕ) (writer_wait_registered late : Bool) :
    PthreadRwlockPrivate × Pc :=
  if expired timeout_us late then
    (unregisterWriterWait rwlock writer_wait_registered, .returned .etimedout)
  else (rwlock, .loop writer_wait_registered)

/-- One pass of the loop of `RwlockLockCooperative`. -/
def lockPass (write : Bool) (timeout_us : Option ℕ) (writer_wait_registered late : Bool) :
    PthreadRwlockPrivate × Pc :=
  if write then
    if deadlocks rwlock self then
      (unregisterWriterWait rwlock writer_wait_registered, .returned .edeadlk)
    else if grantsWrite rwlock then
      (setWriter (unregisterWriterWait rwlock writer_wait_registered) self, .returned .ok)
    else endPass (registerWriterWait rwlock writer_wait_registered) timeout_us true late
  else if grantsRead rwlock self then (rwlockAddReader rwlock self, .returned .ok)
  else endPass rwlock timeout_us writer_wait_registered late

/-- `PthreadRwlockTryrdlock` from the mutex on. -/
def pthreadRwlockTryrdlock : PthreadRwlockPrivate × Pc :=
  if grantsRead rwlock self then (rwlockAddReader rwlock self, .returned .ok)
  else (rwlock, .returned .ebusy)

/-- `PthreadRwlockTrywrlock` from the mutex on. -/
def pthreadRwlockTrywrlock : PthreadRwlockPrivate × Pc :=
  if deadlocks rwlock self then (rwlock, .returned .edeadlk)
  else if grantsWrite rwlock then (setWriter rwlock self, .returned .ok)
  else (rwlock, .returned .ebusy)

/-- `PthreadRwlockUnlock` from the mutex on. -/
def pthreadRwlockUnlock : PthreadRwlockPrivate × Pc :=
  match rwlockRemoveReader rwlock self with
  | some rwlock => (rwlock, .returned .ok)
  | none =>
    if rwlock.writer = some self then
      if rwlock.writer_count = 0 then (rwlock, .aborted)
      else
        let writer_count := decrement rwlock.writer_count
        ({ rwlock with
            writer_count := writer_count
            writer := if writer_count = 0 then none else rwlock.writer }, .returned .ok)
    else (rwlock, .returned .eperm)

/-! ## Steps -/

/-- A call, with the thread that `g_pthread_self` names. -/
structure Call where
  self : Option ℕ
  request : Request
  pc : Pc
  deriving DecidableEq

/-- The lock, the calls in the order in which they began, and what every step so far did to
the lock. -/
structure State where
  rwlock : PthreadRwlockPrivate
  calls : List Call
  log : List (Entry PthreadRwlockPrivate)

namespace State

/-- A new lock. -/
def init : State where
  rwlock := {}
  calls := []
  log := []

/-- The call with the number `c` has made a step. -/
def record (σ : State) (c : ℕ) (call : Call) (next : PthreadRwlockPrivate × Pc) : State where
  rwlock := next.1
  calls := σ.calls.set c { call with pc := next.2 }
  log := { agent := c, before := σ.rwlock, after := next.1 } :: σ.log

/-- A call up to its return, or to its loop. -/
def enter : Option ℕ → Request → PthreadRwlockPrivate × Pc
  | none, _ => (rwlock, .returned .einval)
  | some _, .lock _ _ => (rwlock, .loop false)
  | some self, .tryrdlock => pthreadRwlockTryrdlock rwlock self
  | some self, .trywrlock => pthreadRwlockTrywrlock rwlock self
  | some self, .unlock => pthreadRwlockUnlock rwlock self

/-- A thread makes a call. -/
def start (σ : State) (self : Option ℕ) (request : Request) : State :=
  let call : Call := { self := self, request := request, pc := .loop false }
  record { σ with calls := σ.calls ++ [call] } σ.calls.length call (enter σ.rwlock self request)

/-- What the next pass of a call in its loop does, nothing where it is not there. -/
def nextPass (late : Bool) (call : Call) : Option (PthreadRwlockPrivate × Pc) :=
  match call.self, call.request, call.pc with
  | some self, .lock write timeout_us, .loop writer_wait_registered =>
    some (lockPass rwlock self write timeout_us writer_wait_registered late)
  | _, _, _ => none

/-- The call with the number `c` makes the next pass of its loop. -/
def pass (σ : State) (c : ℕ) (late : Bool) : State :=
  match σ.calls[c]? with
  | none => σ
  | some call =>
    match nextPass σ.rwlock late call with
    | none => σ
    | some next => σ.record c call next

/-- What can happen next. -/
inductive Op
  | start (self : Option ℕ) (request : Request)
  | pass (c : ℕ) (late : Bool)
  deriving DecidableEq

def step (σ : State) : Op → State
  | .start self request => σ.start self request
  | .pass c late => σ.pass c late

/-- A run of any interleaving from a new lock. -/
def run (ops : List Op) : State := ops.foldl step init

end State

end MagnusPS5.Kernel.Rwlock
