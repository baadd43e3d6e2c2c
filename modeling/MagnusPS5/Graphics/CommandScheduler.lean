/-
`CommandScheduler` and `MasterSemaphore` (`commandScheduler.cpp`, `masterSemaphore.cpp`):
command buffers that are recorded, submitted under ticks and recycled, and operations that
are deferred until the tick they belong to is complete.

The scheduler is driven by the GPU thread, whose calls are taken apart into instructions;
an instruction is what it does between two points where another thread can come in. The
other actors are the device, which completes ticks, the priority thread, and threads that
defer operations. Their steps come in any order. A deferred operation may itself call the
scheduler.
-/
import Mathlib.Data.List.Basic

namespace MagnusPS5.Graphics.CommandScheduler

inductive OperationState
  | opened | draining | closed
  deriving DecidableEq

/-- `PendingOperation`: an operation and the tick that was current when it was deferred. -/
structure PendingOperation (Ω : Type) where
  callback : Ω
  tick : ℕ
  deriving DecidableEq

/-- The calls of the scheduler. -/
inductive Api (Ω : Type)
  | begin
  | flush
  | finish
  | finishCurrent
  | wait (tick : ℕ)
  | popPendingOperations
  | isFree (tick : ℕ)
  | waitPriorityOperations (tick : ℕ)
  | drainPriorityOperations
  | deferOperation (operation : Ω)
  | deferPriorityOperation (operation : Ω)
  | shutdown
  deriving DecidableEq

/-- What the GPU thread has left to do, the next instruction first. -/
inductive Instr (Ω : Type)
  /-- A call; the flag says that a deferred operation makes it. -/
  | api (inCallback : Bool) (call : Api Ω)
  | submitCurrent
  /-- `BeginNext`, before it has looked for a buffer. -/
  | beginNext
  /-- `BeginNext` after the refresh. -/
  | beginNextRefreshed
  /-- `Current().WaitForFenceAndReset()` -/
  | fenceWait
  /-- `submitted.WaitForFenceAndReset()` of `FinishCurrent`. -/
  | finishWait
  /-- The fences of all buffers. -/
  | fenceWaitAll
  /-- `m_master.Wait(tick)` -/
  | masterWait (tick : ℕ)
  /-- `m_master.Refresh()` -/
  | refresh
  /-- The loop of `PopPendingOperations`. -/
  | popLoop
  /-- `Current().Begin()` -/
  | beginRecording
  /-- `submitted.Begin()` of `FinishCurrent`; it has waited for the tick. -/
  | beginSubmitted (buffer tick : ℕ)
  /-- The end of `Shutdown`. -/
  | close
  deriving DecidableEq

/-- An operation that was run, with the tick the device had completed then. -/
structure Ran (Ω : Type) where
  operation : PendingOperation Ω
  completed : ℕ
  deriving DecidableEq

/-- A command buffer that was handed out for recording: its index, the tick it was last
submitted with, the tick the device had completed then, and where `FinishCurrent` begins it
the tick that this call has submitted it with and waited for. -/
structure HandedOut where
  buffer : ℕ
  submitted : ℕ
  completed : ℕ
  finished : Option ℕ := none
  deriving DecidableEq

/-- A call of `DeferOperation` or `DeferPriorityOperation` that has queued its operation or run
it: whether a deferred operation has made it, and the state it has found. -/
structure Deferral (Ω : Type) where
  operation : Ω
  priority : Bool
  inCallback : Bool
  state : OperationState
  deriving DecidableEq

/-- `class CommandScheduler` with its `MasterSemaphore`, the device and the GPU thread.
`deferred` and `priorityDeferred` list what was queued so far, `ran` and `priorityRan` what
was run from the queues, in this order; `inlineRan` is what was run without a queue, and `served`
lists the calls that have deferred an operation. -/
structure Scheduler (Ω : Type) where
  /-- `m_master.m_current_tick` -/
  currentTick : ℕ
  /-- `m_master.m_gpu_tick` -/
  gpuTick : ℕ
  /-- The counter of the semaphore: the last tick the device has completed. -/
  completed : ℕ
  m_buffer_ticks : List ℕ
  /-- `m_current`, nothing for `-1`. -/
  m_current : Option ℕ
  m_recording : Bool
  m_operation_state : OperationState
  m_pending_operations : List (PendingOperation Ω)
  m_priority_operations : List (PendingOperation Ω)
  /-- `m_priority_active` and its operation; the flag says that it has been run. -/
  m_priority_active : Option (PendingOperation Ω × Bool)
  todo : List (Instr Ω)
  deferred : List (PendingOperation Ω)
  priorityDeferred : List (PendingOperation Ω)
  ran : List (Ran Ω)
  priorityRan : List (Ran Ω)
  inlineRan : List Ω
  served : List (Deferral Ω)
  handedOut : List HandedOut
  deriving DecidableEq

/-- What the operations do when they are run: calls of the scheduler on the GPU thread, or
operations that a priority operation defers. -/
structure Callbacks (Ω : Type) where
  calls : Ω → List (Api Ω)
  priorityDefers : Ω → List Ω

namespace Scheduler

variable {Ω : Type}

/-- The constructor. -/
def new : Scheduler Ω where
  currentTick := 1
  gpuTick := 0
  completed := 0
  m_buffer_ticks := []
  m_current := none
  m_recording := false
  m_operation_state := .opened
  m_pending_operations := []
  m_priority_operations := []
  m_priority_active := none
  todo := []
  deferred := []
  priorityDeferred := []
  ran := []
  priorityRan := []
  inlineRan := []
  served := []
  handedOut := []

/-! ## Command buffers -/

abbrev CommandBufferGrowStep : ℕ := 4

variable (σ : Scheduler Ω)

/-- `GrowCommandBuffers`, with the index of the first new buffer. -/
def growCommandBuffers : ℕ × Scheduler Ω :=
  (σ.m_buffer_ticks.length,
    { σ with
      m_buffer_ticks := σ.m_buffer_ticks ++ List.replicate CommandBufferGrowStep 0 })

/-- The loop of `FindReusableBuffer`; `left` is `buffer_count + 1 - offset`. -/
def findLoop (m_buffer_ticks : List ℕ) (gpu_tick current : ℕ) : ℕ → Option ℕ
  | 0 => none
  | left + 1 =>
    let offset := m_buffer_ticks.length - left
    let candidate := (current + offset) % m_buffer_ticks.length
    if m_buffer_ticks.getD candidate 0 ≤ gpu_tick then some candidate
    else findLoop m_buffer_ticks gpu_tick current left

def findReusableBuffer (gpu_tick : ℕ) : Option ℕ :=
  findLoop σ.m_buffer_ticks gpu_tick (σ.m_current.getD 0) σ.m_buffer_ticks.length

/-- `m_buffer_ticks[m_current]` -/
def submittedTick : ℕ :=
  match σ.m_current with
  | none => 0
  | some i => σ.m_buffer_ticks.getD i 0

/-- `SubmitCurrent`; nothing where it stops the process. The device gets the buffer
together with the tick it signals. -/
def submitCurrent : Option (Scheduler Ω) :=
  match σ.m_current, σ.m_recording with
  | some i, true =>
    some
      { σ with
        currentTick := σ.currentTick + 1
        m_buffer_ticks := σ.m_buffer_ticks.set i σ.currentTick
        m_recording := false }
  | _, _ => none

/-- A buffer becomes the current one. -/
def select (i : ℕ) : Scheduler Ω :=
  { σ with
    m_current := some i
    handedOut := ⟨i, σ.m_buffer_ticks.getD i 0, σ.completed, none⟩ :: σ.handedOut }

/-- `Current().Begin()`, `m_recording = true`. -/
def beginRecording : Scheduler Ω :=
  { σ with
    m_recording := true
    handedOut := ⟨σ.m_current.getD 0, σ.submittedTick, σ.completed, none⟩ :: σ.handedOut }

/-- `submitted.Begin()`, `m_recording = true`. -/
def beginSubmitted (buffer tick : ℕ) : Scheduler Ω :=
  { σ with
    m_recording := true
    handedOut := ⟨buffer, σ.m_buffer_ticks.getD buffer 0, σ.completed, some tick⟩ ::
      σ.handedOut }

def refresh : Scheduler Ω :=
  { σ with gpuTick := max σ.gpuTick σ.completed }

/-- `MasterSemaphore::Wait` for a tick that is complete. -/
def masterWait (tick : ℕ) : Scheduler Ω :=
  if tick ≤ σ.gpuTick then σ else σ.refresh

/-! ## Deferred operations -/

variable (C : Callbacks Ω) (σ : Scheduler Ω)

/-- A deferred operation is run on the GPU thread. -/
def runOperation (operation : Ω) (rest : List (Instr Ω)) : Scheduler Ω :=
  { σ with todo := (C.calls operation).map (.api true) ++ rest }

variable (inCallback : Bool)

/-- An operation is queued under the current tick. -/
def push (operation : Ω) : Scheduler Ω :=
  { σ with
    m_pending_operations := σ.m_pending_operations ++ [⟨operation, σ.currentTick⟩]
    deferred := σ.deferred ++ [⟨operation, σ.currentTick⟩]
    served := σ.served ++ [⟨operation, false, inCallback, σ.m_operation_state⟩] }

/-- A priority operation is queued under the current tick. -/
def pushPriority (operation : Ω) : Scheduler Ω :=
  { σ with
    m_priority_operations := σ.m_priority_operations ++ [⟨operation, σ.currentTick⟩]
    priorityDeferred := σ.priorityDeferred ++ [⟨operation, σ.currentTick⟩]
    served := σ.served ++ [⟨operation, true, inCallback, σ.m_operation_state⟩] }

/-- An operation is run without a queue. -/
def runInline (priority inCallback : Bool) (operation : Ω) : Scheduler Ω :=
  { σ with
    inlineRan := σ.inlineRan ++ [operation]
    served := σ.served ++ [⟨operation, priority, inCallback, σ.m_operation_state⟩] }

/-- `DeferOperation` on the GPU thread; `rest` is what the thread has left to do. -/
def deferOperation (operation : Ω) (rest : List (Instr Ω)) : Scheduler Ω :=
  if σ.m_operation_state = .opened then { σ.push inCallback operation with todo := rest }
  else if inCallback ∨ σ.m_operation_state = .closed then
    runOperation C (σ.runInline false inCallback operation) operation rest
  else σ

/-- `DeferPriorityOperation` on the GPU thread. -/
def deferPriorityOperation (operation : Ω) (rest : List (Instr Ω)) : Scheduler Ω :=
  if σ.m_operation_state = .opened then { σ.pushPriority inCallback operation with todo := rest }
  else if inCallback ∨ σ.m_operation_state = .closed then
    runOperation C (σ.runInline true inCallback operation) operation rest
  else σ

/-- One round of the loop of `PopPendingOperations`. -/
def popRound (rest : List (Instr Ω)) : Scheduler Ω :=
  match σ.m_pending_operations with
  | [] => { σ with todo := rest }
  | operation :: operations =>
    if σ.gpuTick < operation.tick then { σ with todo := rest }
    else
      runOperation C
        { σ with
          m_pending_operations := operations
          ran := σ.ran ++ [⟨operation, σ.completed⟩] }
        operation.callback (.popLoop :: rest)

/-- `PopPendingOperations(refresh_gpu_tick)` -/
def popPending (refresh_gpu_tick : Bool) : List (Instr Ω) :=
  if refresh_gpu_tick then [.refresh, .popLoop] else [.popLoop]

/-- A priority operation of the tick or of an earlier one is queued or active. -/
def priorityBefore (tick : ℕ) : Bool :=
  (σ.m_priority_active.any fun active => active.1.tick ≤ tick) ||
    (σ.m_priority_operations.head?.any fun operation => operation.tick ≤ tick)

/-! ## The GPU thread -/

/-- A call of the scheduler; nothing where it stops the process. A call that has to wait
leaves everything as it is. -/
def call (rest : List (Instr Ω)) : Api Ω → Option (Scheduler Ω)
  | .begin =>
    if σ.m_operation_state ≠ .opened then none
    else
      let σ := if σ.m_current = none then σ.growCommandBuffers.2.select σ.growCommandBuffers.1
        else σ
      if σ.m_recording then some { σ with todo := rest }
      else some { σ.beginRecording with todo := rest }
  | .flush => some { σ with todo := .submitCurrent :: .beginNext :: rest }
  | .finish =>
    if σ.m_current = none then none
    else
      let submit := if σ.m_recording then [.submitCurrent] else []
      some
        { σ with
          todo := submit ++ .fenceWaitAll :: .masterWait σ.currentTick ::
            (popPending true ++ .beginRecording :: rest) }
  | .finishCurrent =>
    some { σ with todo := .submitCurrent :: .finishWait :: rest }
  | .wait tick =>
    if σ.m_current = none ∨ σ.currentTick < tick then none
    else if σ.currentTick ≤ tick then
      some { σ with todo := .api inCallback .finishCurrent :: rest }
    else some { σ with todo := .masterWait tick :: (popPending true ++ rest) }
  | .popPendingOperations => some { σ with todo := popPending true ++ rest }
  | .isFree tick =>
    if tick ≤ σ.gpuTick then some { σ with todo := rest }
    else some { σ with todo := .refresh :: rest }
  | .waitPriorityOperations tick =>
    if inCallback then none
    else if σ.priorityBefore tick then some σ
    else some { σ with todo := rest }
  | .drainPriorityOperations =>
    if inCallback then none
    else if σ.m_priority_operations = [] ∧ σ.m_priority_active = none then
      some { σ with todo := rest }
    else some σ
  | .deferOperation operation =>
    if σ.m_current = none then none else some (deferOperation C σ inCallback operation rest)
  | .deferPriorityOperation operation =>
    if σ.m_current = none then none
    else some (deferPriorityOperation C σ inCallback operation rest)
  | .shutdown =>
    match σ.m_operation_state, inCallback with
    | .closed, _ => some { σ with todo := rest }
    | .opened, true => none
    | .draining, true => some { σ with todo := rest }
    | .draining, false => some σ
    | .opened, false =>
      let finish : List (Instr Ω) :=
        if σ.m_current ≠ none ∧ σ.m_recording then [.api false .finish] else []
      some
        { σ with
          m_operation_state := .draining
          todo := finish ++ .api false .drainPriorityOperations :: .close :: rest }

/-- The next instruction of the GPU thread; nothing where it stops the process. -/
def execute : Option (Scheduler Ω) :=
  match σ.todo with
  | [] => some σ
  | .api inCallback api :: rest => call C σ inCallback rest api
  | .submitCurrent :: rest => σ.submitCurrent.map (fun σ => { σ with todo := rest })
  | .beginNext :: rest =>
    if σ.m_recording then none
    else
      match σ.findReusableBuffer σ.gpuTick with
      | some i =>
        some
          { σ.select i with
            todo := .fenceWait :: (popPending true ++ .beginRecording :: rest) }
      | none => some { σ with todo := .refresh :: .beginNextRefreshed :: rest }
  | .beginNextRefreshed :: rest =>
    let σ := match σ.findReusableBuffer σ.gpuTick with
      | some i => σ.select i
      | none => σ.growCommandBuffers.2.select σ.growCommandBuffers.1
    some { σ with todo := .fenceWait :: (popPending false ++ .beginRecording :: rest) }
  | .fenceWait :: rest =>
    if σ.submittedTick ≤ σ.completed then some { σ with todo := rest } else some σ
  | .finishWait :: rest =>
    if σ.submittedTick ≤ σ.completed then
      some
        { σ with
          todo := .refresh :: (popPending true ++
            .beginSubmitted (σ.m_current.getD 0) σ.submittedTick :: rest) }
    else some σ
  | .fenceWaitAll :: rest =>
    if ∀ tick ∈ σ.m_buffer_ticks, tick ≤ σ.completed then some { σ with todo := rest }
    else some σ
  | .masterWait tick :: rest =>
    if tick ≤ σ.completed then some { σ.masterWait tick with todo := rest } else some σ
  | .refresh :: rest => some { σ.refresh with todo := rest }
  | .popLoop :: rest => some (popRound C σ rest)
  | .beginRecording :: rest =>
    if σ.m_current = none then none else some { σ.beginRecording with todo := rest }
  | .beginSubmitted buffer tick :: rest =>
    some { σ.beginSubmitted buffer tick with todo := rest }
  | .close :: rest =>
    if σ.m_pending_operations = [] ∧ σ.m_priority_operations = [] ∧
        σ.m_priority_active = none then
      some { σ with m_operation_state := .closed, todo := rest }
    else none

/-! ## Steps -/

/-- What can happen next. -/
inductive Op (Ω : Type)
  /-- The GPU thread, which has nothing left to do, makes a call. -/
  | call (api : Api Ω)
  /-- The GPU thread takes its next instruction. -/
  | execute
  /-- The device completes a tick that was submitted. -/
  | complete (tick : ℕ)
  /-- Another thread defers an operation. -/
  | deferOperation (operation : Ω)
  | deferPriorityOperation (operation : Ω)
  /-- The priority thread takes its next operation. -/
  | priorityPop
  /-- The tick of its operation is complete, and it runs it. -/
  | priorityRun
  /-- The operation is over. -/
  | priorityDone
  deriving DecidableEq

/-- Another thread defers an operation. While the scheduler is draining it waits. -/
def deferFrom (operation : Ω) : Scheduler Ω :=
  match σ.m_operation_state with
  | .opened => σ.push false operation
  | .draining => σ
  | .closed => σ.runInline false false operation

/-- Another thread defers a priority operation. -/
def deferPriorityFrom (operation : Ω) : Scheduler Ω :=
  match σ.m_operation_state with
  | .opened => σ.pushPriority false operation
  | .draining => σ
  | .closed => σ.runInline true false operation

/-- What an operation of the priority thread defers, in a callback of the scheduler: at
once where the scheduler is not open any more. -/
def deferInPriority (operation : Ω) : Scheduler Ω :=
  if σ.m_operation_state = .opened then σ.push true operation
  else σ.runInline false true operation

/-- One step; nothing where it stops the process. -/
def step : Op Ω → Option (Scheduler Ω)
  | .call api => if σ.todo = [] then some { σ with todo := [.api false api] } else some σ
  | .execute => execute C σ
  | .complete tick =>
    if tick < σ.currentTick then some { σ with completed := max σ.completed tick } else some σ
  | .deferOperation operation =>
    if σ.m_current = none then none else some (σ.deferFrom operation)
  | .deferPriorityOperation operation =>
    if σ.m_current = none then none else some (σ.deferPriorityFrom operation)
  | .priorityPop =>
    match σ.m_priority_active, σ.m_priority_operations with
    | none, operation :: operations =>
      some
        { σ with
          m_priority_operations := operations
          m_priority_active := some (operation, false) }
    | _, _ => some σ
  | .priorityRun =>
    match σ.m_priority_active with
    | some (operation, false) =>
      if operation.tick ≤ σ.completed then
        some ((C.priorityDefers operation.callback).foldl deferInPriority
          { σ.masterWait operation.tick with
            m_priority_active := some (operation, true)
            priorityRan := σ.priorityRan ++ [⟨operation, σ.completed⟩] })
      else some σ
    | _ => some σ
  | .priorityDone =>
    match σ.m_priority_active with
    | some (_, true) => some { σ with m_priority_active := none }
    | _ => some σ

/-- The states of all runs. -/
inductive Reachable (C : Callbacks Ω) : Scheduler Ω → Prop
  | new : Reachable C new
  | step {σ σ' : Scheduler Ω} (h : Reachable C σ) (op : Op Ω) (hstep : step C σ op = some σ') :
      Reachable C σ'

end Scheduler

end MagnusPS5.Graphics.CommandScheduler
