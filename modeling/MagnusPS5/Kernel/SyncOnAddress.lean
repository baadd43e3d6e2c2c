/-
`SyncOnAddress` (`syncOnAddress.cpp`), the portable path: waiting on the value of a word of
guest memory, and waking those who wait.

The registry maps addresses to entries, an entry lists the waiters of its address; the
registry has a mutex, and so has every entry. A call is a process with a program counter,
and one step of it is what it does between two operations on these mutexes; calls take
their steps in any order, and guest memory changes at any time. Condition variables are
not modelled: a sleeping call may wake up at any time, for any reason.
-/
import Mathlib

namespace MagnusPS5.Kernel.SyncOnAddress

open Function (update)

/-- `INT_MAX`, the count that wakes everyone. -/
abbrev INT_MAX : ℕ := 2147483647

/-- `OK`, `KERNEL_ERROR_ETIMEDOUT` and `KERNEL_ERROR_EINVAL`. -/
inductive Result
  | ok | timedOut | invalid
  deriving DecidableEq

/-! ## Calls -/

/-- A call with its arguments. `size` is the size of the word, `finite` says that the
caller gave a timeout; `count` is an `int32_t`. -/
inductive Call
  | wait (address size expected : ℕ) (finite : Bool)
  | wake (address : ℕ) (count : BitVec 32)
  deriving DecidableEq

/-- `ReadWord`: the word of `size` bytes at an address, the lowest byte first. -/
def readWord (memory : ℕ → ℕ) (address size : ℕ) : ℕ :=
  ((List.range size).map (fun i => memory (address + i) * 256 ^ i)).sum

/-- `IsValidWaitAddress` and `IsValidWakeAddress`, with the check of the count. -/
def Call.valid : Call → Bool
  | .wait address size _ _ => decide (address ≠ 0 ∧ address % size = 0)
  | .wake address count => decide (address ≠ 0 ∧ address % 4 = 0 ∧ 0 ≤ count.toInt)

def Call.address : Call → ℕ
  | .wait address _ _ _ => address
  | .wake address _ => address

/-- Where a call is. The number is the entry it works on. -/
inductive Pc
  /-- The call has not begun. -/
  | idle
  /-- `RegisterPortableWaiter`, before it has the registry. -/
  | register
  /-- It has the registry and looks up its entry. -/
  | lookup
  /-- It waits for the mutex of the entry. -/
  | lock (e : ℕ)
  /-- It has both mutexes and links its waiter. -/
  | link (e : ℕ)
  /-- `WaitPortable`, at the condition of its loop, with the mutex of the entry. -/
  | loop (e : ℕ)
  /-- In `WaitFor`, without the mutex. -/
  | asleep (e : ℕ)
  /-- `WaitFor` has returned with the mutex. -/
  | woken (e : ℕ)
  /-- In `PollSignals`, without the mutex. -/
  | polling (e : ℕ)
  /-- It has the mutex again and looks at the clock. -/
  | recheck (e : ℕ)
  /-- `UnregisterPortableWaiter`, with the mutex of the entry. -/
  | unlink (e : ℕ) (result : Result)
  /-- The entry was empty; it waits for the registry. -/
  | emptied (e : ℕ) (result : Result)
  /-- It has the registry and waits for the mutex of the entry. -/
  | emptiedLock (e : ℕ) (result : Result)
  /-- It has both mutexes and may remove the entry. -/
  | remove (e : ℕ) (result : Result)
  /-- `WakePortable`, before it has the registry. -/
  | wake
  /-- It has the registry and looks up the entry. -/
  | wakeLookup
  /-- It waits for the mutex of the entry. -/
  | wakeLock (e : ℕ)
  /-- It has both mutexes and gives the registry back. -/
  | wakeUnlock (e : ℕ)
  /-- It has the mutex of the entry and selects waiters. -/
  | select (e : ℕ)
  | returned (result : Result)
  deriving DecidableEq

/-! ## The state -/

/-- Memory, the registry and the entries with the owners of their mutexes, and the calls.
The numbers of entries and the tickets of waiters are given out in order. An entry that
was never registered has a free mutex and no waiters. -/
structure State where
  memory : ℕ → ℕ
  registryOwner : Option ℕ
  registry : ℕ → Option ℕ
  nextEntry : ℕ
  entryOwner : ℕ → Option ℕ
  waiters : ℕ → List ℕ
  call : ℕ → Call
  pc : ℕ → Pc
  wakeRequested : ℕ → Bool
  ticket : ℕ → ℕ
  nextTicket : ℕ

namespace State

/-- No entry, no call. -/
def init (memory : ℕ → ℕ) : State where
  memory := memory
  registryOwner := none
  registry := fun _ => none
  nextEntry := 0
  entryOwner := fun _ => none
  waiters := fun _ => []
  call := fun _ => .wake 0 0
  pc := fun _ => .idle
  wakeRequested := fun _ => false
  ticket := fun _ => 0
  nextTicket := 0

variable (σ : State)

def goto (p : ℕ) (pc : Pc) : State := { σ with pc := update σ.pc p pc }

def lockRegistry (p : ℕ) : State := { σ with registryOwner := some p }

def unlockRegistry : State := { σ with registryOwner := none }

def lockEntry (e p : ℕ) : State :=
  { σ with entryOwner := update σ.entryOwner e (some p) }

def unlockEntry (e : ℕ) : State :=
  { σ with entryOwner := update σ.entryOwner e none }

/-- `registry.entries[address] = std::make_shared<PortableAddressEntry>()` -/
def create (address : ℕ) : State :=
  { σ with
    registry := update σ.registry address (some σ.nextEntry)
    nextEntry := σ.nextEntry + 1 }

/-- `entry->waiters.push_back(waiter)` -/
def linkWaiter (e p : ℕ) : State :=
  { σ with
    waiters := update σ.waiters e (σ.waiters e ++ [p])
    ticket := update σ.ticket p σ.nextTicket
    nextTicket := σ.nextTicket + 1 }

/-- `entry->waiters.remove(waiter)` -/
def unlinkWaiter (e p : ℕ) : State :=
  { σ with waiters := update σ.waiters e ((σ.waiters e).filter (fun q => q ≠ p)) }

/-- `registry.entries.erase(it)` -/
def erase (address : ℕ) : State :=
  { σ with registry := update σ.registry address none }

/-- The loop of `WakePortable`: it marks waiters that are not selected yet until
`remaining` is used up, and all of them for `INT_MAX`. -/
def selectLoop (wakeRequested : ℕ → Bool) : ℕ → List ℕ → (ℕ → Bool)
  | _, [] => wakeRequested
  | remaining, q :: rest =>
    if wakeRequested q then selectLoop wakeRequested remaining rest
    else
      let wakeRequested := update wakeRequested q true
      if remaining ≠ INT_MAX then
        if remaining - 1 = 0 then wakeRequested
        else selectLoop wakeRequested (remaining - 1) rest
      else selectLoop wakeRequested remaining rest

/-- The selection of a wake with `count` on an entry. -/
def selectWaiters (e count : ℕ) : State :=
  { σ with wakeRequested := selectLoop σ.wakeRequested count (σ.waiters e) }

/-- The word of a call has the value the caller expects. -/
def equal : Call → Bool
  | .wait address size expected _ => readWord σ.memory address size == expected
  | .wake _ _ => false

/-- The call has a timeout. -/
def finite : Call → Bool
  | .wait _ _ _ finite => finite
  | .wake _ _ => false

/-- The count of a wake. -/
def count : Call → ℕ
  | .wait _ _ _ _ => 0
  | .wake _ count => count.toInt.toNat

/-! ## Steps -/

/-- The next step of a call; nothing happens where it has to wait for a mutex. `expired`
is what the clock says when the call asks it: `GetWaitSliceMicros` has no time left, be it
0 or `UINT32_MAX` that it returns, or the deadline is over. -/
def advance (p : ℕ) (expired : Bool) : State :=
  match σ.pc p with
  | .idle => σ
  | .register =>
    if σ.registryOwner = none then (σ.lockRegistry p).goto p .lookup else σ
  | .lookup =>
    match σ.registry (σ.call p).address with
    | some e => σ.goto p (.lock e)
    | none => (σ.create (σ.call p).address).goto p (.lock σ.nextEntry)
  | .lock e => if σ.entryOwner e = none then (σ.lockEntry e p).goto p (.link e) else σ
  | .link e => ((σ.linkWaiter e p).goto p (.loop e)).unlockRegistry
  | .loop e =>
    if σ.equal (σ.call p) = true ∧ σ.wakeRequested p = false then
      if finite (σ.call p) ∧ expired then σ.goto p (.unlink e .timedOut)
      else (σ.goto p (.asleep e)).unlockEntry e
    else σ.goto p (.unlink e .ok)
  | .asleep e => if σ.entryOwner e = none then (σ.lockEntry e p).goto p (.woken e) else σ
  | .woken e => (σ.goto p (.polling e)).unlockEntry e
  | .polling e => if σ.entryOwner e = none then (σ.lockEntry e p).goto p (.recheck e) else σ
  | .recheck e =>
    if finite (σ.call p) ∧ expired ∧ σ.equal (σ.call p) = true ∧ σ.wakeRequested p = false then
      σ.goto p (.unlink e .timedOut)
    else σ.goto p (.loop e)
  | .unlink e result =>
    let σ' := σ.unlinkWaiter e p
    if σ'.waiters e = [] then (σ'.goto p (.emptied e result)).unlockEntry e
    else (σ'.goto p (.returned result)).unlockEntry e
  | .emptied e result =>
    if σ.registryOwner = none then (σ.lockRegistry p).goto p (.emptiedLock e result) else σ
  | .emptiedLock e result =>
    if σ.entryOwner e = none then (σ.lockEntry e p).goto p (.remove e result) else σ
  | .remove e result =>
    let σ' := σ.goto p (.returned result)
    if σ.registry (σ.call p).address = some e ∧ σ.waiters e = [] then
      ((σ'.erase (σ.call p).address).unlockEntry e).unlockRegistry
    else (σ'.unlockEntry e).unlockRegistry
  | .wake => if σ.registryOwner = none then (σ.lockRegistry p).goto p .wakeLookup else σ
  | .wakeLookup =>
    match σ.registry (σ.call p).address with
    | none => (σ.goto p (.returned .ok)).unlockRegistry
    | some e => σ.goto p (.wakeLock e)
  | .wakeLock e => if σ.entryOwner e = none then (σ.lockEntry e p).goto p (.wakeUnlock e) else σ
  | .wakeUnlock e => (σ.goto p (.select e)).unlockRegistry
  | .select e =>
    ((σ.selectWaiters e (count (σ.call p))).goto p (.returned .ok)).unlockEntry e
  | .returned _ => σ

/-- The first program counter of a call. -/
def start (call : Call) : Pc :=
  if call.valid = false then .returned .invalid
  else
    match call with
    | .wait _ _ _ _ => .register
    | .wake _ count => if count = 0 then .returned .ok else .wake

/-- A call begins. -/
def begin (p : ℕ) (call : Call) : State :=
  if σ.pc p = .idle then { σ with call := update σ.call p call }.goto p (start call) else σ

/-- What can happen next. -/
inductive Op
  | begin (p : ℕ) (call : Call)
  | advance (p : ℕ) (expired : Bool)
  | store (memory : ℕ → ℕ)

def step : Op → State
  | .begin p call => σ.begin p call
  | .advance p expired => σ.advance p expired
  | .store memory => { σ with memory := memory }

/-- The states of all runs. -/
inductive Reachable (memory : ℕ → ℕ) : State → Prop
  | init : Reachable memory (init memory)
  | step {σ : State} (h : Reachable memory σ) (op : Op) : Reachable memory (σ.step op)

end State

end MagnusPS5.Kernel.SyncOnAddress
