/-
`KernelSemaPrivate` (`semaphore.cpp`), the counting semaphore of the kernel.

Every operation holds the mutex of the semaphore from its start to its end, except `Wait`,
which gives it up while it sleeps and whenever it lets the thread take its pending signals.
What runs between two such points is one step here: `wait` up to the first sleep, `resume`
from a wake-up to the next sleep or to the return. Threads take their steps in any order.
-/
import Mathlib.Algebra.Order.Ring.Int
import Mathlib.Data.Int.ModEq

namespace MagnusPS5.Kernel

/-- The largest `int`. -/
abbrev INT_MAX : ℤ := 2147483647

/-- `a + b` on `int`, in two's complement where it does not fit. -/
def addInt (a b : ℤ) : ℤ := Int.bmod (a + b) 4294967296

theorem addInt_of_le {a b : ℤ} (hlo : 0 ≤ a + b) (hhi : a + b ≤ INT_MAX) : addInt a b = a + b := by
  have hhi' : a + b ≤ 2147483647 := hhi
  exact Int.bmod_eq_of_le (by omega) (by omega)

namespace KernelSema

/-! ## The semaphore -/

inductive Result
  | ok | timedOut | canceled | deleted | invalCount
  deriving DecidableEq

inductive Status
  | set | deleted
  deriving DecidableEq

/-- `WaitingThread`, an object on the stack of one call of `Wait`. Each call has its own;
`call` numbers the calls. `micros` is the local of the call, nothing where the wait is
infinite. -/
structure WaitingThread where
  call : ℕ
  micros : Option ℕ
  priority : ℤ
  need_count : ℤ
  result : Result
  ready : Bool
  deriving DecidableEq

/-- What the threads outside see of the semaphore: tokens that come in, go out to a call,
or are replaced, and calls of `Wait` that return, with the time left over. -/
inductive Event
  | signaled (signal_count : ℤ)
  | handed (call : ℕ) (need_count : ℤ)
  | reset (count : ℤ)
  | returned (call : ℕ) (result : Result) (micros : Option ℕ)
  deriving DecidableEq

/-- `class KernelSemaPrivate`. `calls` counts the calls of `Wait`, `history` lists what
happened so far, the last event first. -/
structure KernelSemaPrivate where
  m_fifo_order : Bool
  m_count : ℤ
  m_init_count : ℤ
  m_max_count : ℤ
  m_status : Status
  m_waiting_threads : List WaitingThread
  calls : ℕ
  history : List Event
  deriving DecidableEq

namespace KernelSemaPrivate

/-- The constructor. -/
def new (fifo : Bool) (init_count max_count : ℤ) : KernelSemaPrivate where
  m_fifo_order := fifo
  m_count := init_count
  m_init_count := init_count
  m_max_count := max_count
  m_status := .set
  m_waiting_threads := []
  calls := 0
  history := []

/-- A thread that is not ready yet gets `result` and becomes ready. -/
def markReady (result : Result) (waiter : WaitingThread) : WaitingThread :=
  if waiter.ready then waiter else { waiter with result := result, ready := true }

variable (σ : KernelSemaPrivate)

/-- `~KernelSemaPrivate` up to its last loop, which waits until the queue is empty; the
object is gone then. A second `delete` never gets past its first loop. -/
def delete : KernelSemaPrivate :=
  { σ with
    m_status := .deleted
    m_waiting_threads := σ.m_waiting_threads.map (markReady .deleted) }

/-- `Cancel`, with the number of waiting threads it reports. -/
def cancel (set_count : ℤ) : Result × ℕ × KernelSemaPrivate :=
  if σ.m_max_count < set_count then (.invalCount, 0, σ)
  else if σ.m_status = .deleted then (.deleted, 0, σ)
  else
    let count := if set_count < 0 then σ.m_init_count else set_count
    (.ok, σ.m_waiting_threads.countP (fun waiter => !waiter.ready),
      { σ with
        m_count := count
        m_waiting_threads := σ.m_waiting_threads.map (markReady .canceled)
        history := .reset count :: σ.history })

/-- The loop of `WakeWaiters`: whoever can be satisfied gets its tokens, in the order of
the queue. -/
def wakeLoop : ℤ → List Event → List WaitingThread → ℤ × List Event × List WaitingThread
  | m_count, history, [] => (m_count, history, [])
  | m_count, history, waiter :: rest =>
    if waiter.ready = false ∧ waiter.need_count ≤ m_count then
      let r := wakeLoop (m_count - waiter.need_count)
        (.handed waiter.call waiter.need_count :: history) rest
      (r.1, r.2.1, { waiter with result := .ok, ready := true } :: r.2.2)
    else
      let r := wakeLoop m_count history rest
      (r.1, r.2.1, waiter :: r.2.2)

def wakeWaiters : KernelSemaPrivate :=
  let r := wakeLoop σ.m_count σ.history σ.m_waiting_threads
  { σ with m_count := r.1, history := r.2.1, m_waiting_threads := r.2.2 }

def signal (signal_count : ℤ) : Result × KernelSemaPrivate :=
  if σ.m_status = .deleted then (.deleted, σ)
  else if σ.m_max_count < addInt σ.m_count signal_count then (.invalCount, σ)
  else
    (.ok, wakeWaiters
      { σ with
        m_count := addInt σ.m_count signal_count
        history := .signaled signal_count :: σ.history })

/-- `AddWaiter`: at the end, or behind the waiters of the same or a better priority. -/
def addWaiter (fifo : Bool) (waiter : WaitingThread) : List WaitingThread → List WaitingThread
  | [] => [waiter]
  | w :: rest =>
    if fifo ∨ w.priority ≤ waiter.priority then w :: addWaiter fifo waiter rest
    else waiter :: w :: rest

def removeWaiter (call : ℕ) (waiters : List WaitingThread) : List WaitingThread :=
  waiters.eraseP (fun waiter => waiter.call = call)

/-- The return of the call `call` from `Wait`. -/
def ret (call : ℕ) (result : Result) (micros : Option ℕ) : KernelSemaPrivate :=
  { σ with history := .returned call result micros :: σ.history }

/-- `Wait` up to its return or to its first sleep. `ptr_micros` is what the caller's
pointer points to, `priority` the current priority of the thread. `Poll` is a wait with no
time to spend. -/
def wait (need_count : ℤ) (ptr_micros : Option ℕ) (priority : ℤ) : KernelSemaPrivate :=
  let call := σ.calls
  let σ := { σ with calls := call + 1 }
  if need_count < 1 ∨ σ.m_max_count < need_count then σ.ret call .invalCount ptr_micros
  else if σ.m_status = .deleted then σ.ret call .deleted ptr_micros
  else if need_count ≤ σ.m_count then
    { σ with
      m_count := σ.m_count - need_count
      history := .returned call .ok ptr_micros :: .handed call need_count :: σ.history }
  else if ptr_micros = some 0 then σ.ret call .timedOut ptr_micros
  else
    let waiter : WaitingThread :=
      { call := call
        micros := ptr_micros
        priority := if σ.m_fifo_order then 0 else priority
        need_count := need_count
        result := .timedOut
        ready := false }
    { σ with m_waiting_threads := addWaiter σ.m_fifo_order waiter σ.m_waiting_threads }

/-- The time left over of `micros` when a call returns with its result. -/
def remaining (elapsed : ℕ) (micros : Option ℕ) : Option ℕ :=
  micros.map (fun micros => if micros ≤ elapsed then 0 else micros - elapsed)

/-- The call `call` of `Wait` from its wake-up to its next sleep or to its return; it woke
up for any reason, and `elapsed` is the time it has spent. -/
def resume (call elapsed : ℕ) : KernelSemaPrivate :=
  match σ.m_waiting_threads.find? (fun waiter => waiter.call = call) with
  | none => σ
  | some waiter =>
    if waiter.ready then
      { σ with m_waiting_threads := removeWaiter call σ.m_waiting_threads }.ret call
        waiter.result (remaining elapsed waiter.micros)
    else
      match waiter.micros with
      | none => σ
      | some micros =>
        if micros ≤ elapsed then
          { σ with m_waiting_threads := removeWaiter call σ.m_waiting_threads }.ret call
            .timedOut (some 0)
        else σ

/-! ## Steps -/

/-- What a thread can do with the semaphore. `poll` is `Poll`. -/
inductive Op
  | wait (need_count : ℤ) (ptr_micros : Option ℕ) (priority : ℤ)
  | poll (need_count : ℤ) (priority : ℤ)
  | resume (call elapsed : ℕ)
  | signal (signal_count : ℤ)
  | cancel (set_count : ℤ)
  | delete
  deriving DecidableEq

/-- One step of one thread. -/
def step : Op → KernelSemaPrivate
  | .wait need_count ptr_micros priority => σ.wait need_count ptr_micros priority
  | .poll need_count priority => σ.wait need_count (some 0) priority
  | .resume call elapsed => σ.resume call elapsed
  | .signal signal_count => (σ.signal signal_count).2
  | .cancel set_count => (σ.cancel set_count).2.2
  | .delete => σ.delete

/-- A run of any interleaving. -/
def run (ops : List Op) : KernelSemaPrivate := ops.foldl step σ

end KernelSemaPrivate

end KernelSema

end MagnusPS5.Kernel
