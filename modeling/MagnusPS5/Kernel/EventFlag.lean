/-
`KernelEventFlagPrivate` (`eventFlag.cpp`), the event flag of the kernel.

`Cancel` and the destructor drain the flag: they leave the status `Set`, wake every thread
that sleeps in `Wait`, and poll the number of waiting threads until it is 0. A step here
is what a thread does between two points at which it gives up the mutex: a call up to its
first sleep or poll, and one wake-up or one poll after that. Threads take their steps in
any order.
-/
import Mathlib.Algebra.Order.Ring.Int

namespace MagnusPS5.Kernel.EventFlag

/-! ## The flag -/

inductive Result
  | ok | alreadyWaiting | timedOut | canceled | deleted
  deriving DecidableEq

inductive ClearMode
  | none | all | bits
  deriving DecidableEq

inductive WaitMode
  | and | or
  deriving DecidableEq

inductive Status
  | set | canceled | deleted
  deriving DecidableEq

/-- A thread that sleeps in `Wait`, with the arguments of its call. `micros` is nothing
where the wait is infinite; `signalled` says that the condition variable was signalled
since the thread went to sleep. -/
structure Waiter where
  call : ℕ
  bits : BitVec 64
  wait_mode : WaitMode
  clear_mode : ClearMode
  micros : Option ℕ
  signalled : Bool
  deriving DecidableEq

/-- A call that changes the flag. -/
inductive Call
  | set (bits : BitVec 64)
  | clear (bits : BitVec 64)
  | cancel (bits : BitVec 64)
  deriving DecidableEq

/-- What a call of `Wait` returns: its result, `*result` where it writes it, and
`*ptr_micros`. -/
structure Returned where
  call : ℕ
  result : Result
  bits : Option (BitVec 64)
  micros : Option ℕ
  deriving DecidableEq

/-- `class KernelEventFlagPrivate`. `sleeping` are the threads asleep in `Wait`,
`spinning` the calls that poll for the status `Set`; `calls` numbers the calls of `Wait`,
and `returned` lists those that are over, the last one first. -/
structure KernelEventFlagPrivate where
  m_single_thread : Bool
  m_bits : BitVec 64
  m_status : Status
  m_waiting_threads : ℤ
  sleeping : List Waiter
  spinning : List Call
  calls : ℕ
  returned : List Returned
  deriving DecidableEq

namespace KernelEventFlagPrivate

/-- The constructor. -/
def new (single : Bool) (bits : BitVec 64) : KernelEventFlagPrivate where
  m_single_thread := single
  m_bits := bits
  m_status := .set
  m_waiting_threads := 0
  sleeping := []
  spinning := []
  calls := 0
  returned := []

variable (σ : KernelEventFlagPrivate)

def signalAll : KernelEventFlagPrivate :=
  { σ with sleeping := σ.sleeping.map (fun waiter => { waiter with signalled := true }) }

/-- The condition `Wait` waits for. -/
def satisfied (m_bits bits : BitVec 64) : WaitMode → Bool
  | .and => m_bits &&& bits == bits
  | .or => m_bits &&& bits != 0

/-- The bits after a successful wait. -/
def clearBits (m_bits bits : BitVec 64) : ClearMode → BitVec 64
  | .all => 0
  | .bits => m_bits &&& ~~~bits
  | .none => m_bits

def updateTimeout (elapsed : ℕ) (micros : Option ℕ) : Option ℕ :=
  micros.map (fun micros => if micros ≤ elapsed then 0 else micros - elapsed)

/-- The time of a call is over. -/
def expired (elapsed : ℕ) : Option ℕ → Bool
  | none => false
  | some micros => decide (micros ≤ elapsed)

/-- The return of a call of `Wait`. -/
def ret (call : ℕ) (result : Result) (micros : Option ℕ) : KernelEventFlagPrivate :=
  { σ with returned := ⟨call, result, some σ.m_bits, micros⟩ :: σ.returned }

/-- The loop of `Wait` from its condition to the next sleep or to the return. -/
def waitLoop (waiter : Waiter) (elapsed : ℕ) : KernelEventFlagPrivate :=
  if satisfied σ.m_bits waiter.bits waiter.wait_mode then
    let σ' := σ.ret waiter.call .ok (updateTimeout elapsed waiter.micros)
    { σ' with m_bits := clearBits σ.m_bits waiter.bits waiter.clear_mode }
  else if expired elapsed waiter.micros then
    σ.ret waiter.call .timedOut (updateTimeout elapsed waiter.micros)
  else
    { σ with
      m_waiting_threads := σ.m_waiting_threads + 1
      sleeping := { waiter with signalled := false } :: σ.sleeping }

/-- `Wait` up to its return or its first sleep. -/
def wait (bits : BitVec 64) (wait_mode : WaitMode)
    (clear_mode : ClearMode) (ptr_micros : Option ℕ) : KernelEventFlagPrivate :=
  let waiter : Waiter := ⟨σ.calls, bits, wait_mode, clear_mode, ptr_micros, false⟩
  let σ := { σ with calls := σ.calls + 1 }
  if σ.m_single_thread ∧ 0 < σ.m_waiting_threads then
    { σ with returned := ⟨waiter.call, .alreadyWaiting, none, ptr_micros⟩ :: σ.returned }
  else σ.waitLoop waiter 0

/-- A thread in `Wait` wakes up, for whatever reason, and goes on to its next sleep or to
its return. -/
def resume (call elapsed : ℕ) : KernelEventFlagPrivate :=
  match σ.sleeping.find? (fun waiter => waiter.call = call) with
  | none => σ
  | some waiter =>
    let σ := { σ with
      m_waiting_threads := σ.m_waiting_threads - 1
      sleeping := σ.sleeping.eraseP (fun waiter => waiter.call = call) }
    match σ.m_status with
    | .canceled => σ.ret call .canceled (updateTimeout elapsed waiter.micros)
    | .deleted => σ.ret call .deleted (updateTimeout elapsed waiter.micros)
    | .set => σ.waitLoop waiter elapsed

/-- `Set`, `Clear` and `Cancel` once the status is `Set`. `Cancel` goes on to poll the
number of waiting threads. -/
def perform : Call → KernelEventFlagPrivate
  | .set bits => { σ with m_bits := σ.m_bits ||| bits }.signalAll
  | .clear bits => { σ with m_bits := σ.m_bits &&& bits }
  | .cancel bits => { σ with m_status := .canceled, m_bits := bits }.signalAll

/-- A call of `Set`, `Clear` or `Cancel`; nothing where it stops the process. -/
def enter (call : Call) : Option KernelEventFlagPrivate :=
  match σ.m_status with
  | .deleted => none
  | .canceled => some { σ with spinning := call :: σ.spinning }
  | .set => some (σ.perform call)

/-- The `i`-th call that polls for the status `Set` looks again. -/
def retry (i : ℕ) : KernelEventFlagPrivate :=
  match σ.spinning[i]?, σ.m_status with
  | some call, .set => { σ with spinning := σ.spinning.eraseIdx i }.perform call
  | _, _ => σ

/-- `Cancel` polls the number of waiting threads. -/
def poll : KernelEventFlagPrivate :=
  if σ.m_status = .canceled ∧ σ.m_waiting_threads ≤ 0 then { σ with m_status := .set } else σ

/-- The destructor once the status is `Set`; it goes on to poll the number of waiting
threads, and the flag is gone when that is 0. -/
def delete : KernelEventFlagPrivate :=
  if σ.m_status = .set then { σ with m_status := .deleted }.signalAll else σ

/-! ## Steps -/

/-- A step of one thread. `Poll` is a `wait` with no time to spend. -/
inductive Op
  | wait (bits : BitVec 64) (wait_mode : WaitMode) (clear_mode : ClearMode)
      (ptr_micros : Option ℕ)
  | resume (call elapsed : ℕ)
  | enter (call : Call)
  | retry (i : ℕ)
  | poll
  | delete
  deriving DecidableEq

/-- One step of one thread; nothing where it stops the process. -/
def step : Op → Option KernelEventFlagPrivate
  | .wait bits wait_mode clear_mode ptr_micros =>
    some (σ.wait bits wait_mode clear_mode ptr_micros)
  | .resume call elapsed => some (σ.resume call elapsed)
  | .enter call => σ.enter call
  | .retry i => some (σ.retry i)
  | .poll => some σ.poll
  | .delete => some σ.delete

/-- A run of any interleaving; nothing once the process is stopped. -/
def run (σ : KernelEventFlagPrivate) : List Op → Option KernelEventFlagPrivate
  | [] => some σ
  | op :: ops => (σ.step op).bind (fun σ => run σ ops)

end KernelEventFlagPrivate

end MagnusPS5.Kernel.EventFlag
