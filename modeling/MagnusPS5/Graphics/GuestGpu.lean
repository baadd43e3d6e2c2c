/-
`GuestGpu` (`graphicsRun.cpp`): the queues of submissions, the queue of commands, and the
thread that works on them.

What a thread does to the queues it does while it has `m_queue_mutex`, and one step is one such
section; between two sections of the GPU thread the other threads come in. What a submission
does when it is processed is not modelled: it may send commands, drain the commands that are
pending, and come back complete or blocked. `m_submission_mutex` is held over several steps
only by `Done`. A command that the GPU thread sends is one step while `m_processing` is set or the
call of `Done` that sends it has the mutex, since no `WaitForIdle` returns then.

The counters have 32 bits in the source and count what is in memory; here they are in ℕ.

The numbers of submissions and commands, and the lists from `enqueued` on, are not in the
source: they record what was accepted, begun and completed.
-/
import Mathlib.Algebra.BigOperators.Group.List.Basic

namespace MagnusPS5.Graphics.GuestGpu

open Function (update)

/-- `ComputePipeCount * QueuesPerComputePipe`. -/
abbrev ComputeQueueCount : ℕ := 7 * 8

/-- The queue of graphics and the queues of compute. -/
abbrev QueueCount : ℕ := 1 + ComputeQueueCount

abbrev compute_queue_base : ℕ := 0x20

inductive SubmissionType
  | graphics | compute | flipPreparation
  deriving DecidableEq

/-- `Submission`; `id` is the number of the call that made it. -/
structure Submission where
  id : ℕ
  type : SubmissionType
  queue_id : ℕ
  reset_processor : Bool := false
  started : Bool := false
  blocked : Bool := false
  deriving DecidableEq

/-- A command, with the number of the call that sent it. `inline` says that the GPU thread sent
it itself. -/
structure Command where
  id : ℕ
  inline : Bool
  deriving DecidableEq

/-- Where the GPU thread is. -/
inductive Pc
  /-- Before its loop, or in a wait of the first loop over the queues. -/
  | top
  /-- In `WaitFor`, with blocked submissions only. -/
  | resting
  /-- Running a command that it took by itself. -/
  | running (c : Command)
  /-- In `Process`. -/
  | processing (s : Submission)
  /-- In `ProcessCommands` of a submission, before it has the mutex. -/
  | draining (s : Submission)
  /-- Running a command in `ProcessCommands` of a submission. -/
  | drainRunning (s : Submission) (c : Command)
  /-- Past the loop, in `BufferWait`, with the numbers of the commands that it has sent there and
  that are running, the last one first. -/
  | stopping (inline : List ℕ)
  | stopped
  deriving DecidableEq

/-- Where the call of `Done` is that has the mutex of submissions. -/
inductive DoneStage
  | waitForIdle
  /-- Before the capture is looked at. -/
  | capture
  /-- In `SendCommandSync`. -/
  | awaiting (c : Command)
  | finish
  deriving DecidableEq

structure State where
  m_queues : ℕ → List Submission
  m_commands : List Command
  m_pending_commands : ℕ
  m_submission_count : ℕ
  m_next_queue : ℕ
  m_processing : Bool
  m_graphics_done : Bool
  m_accepting : Bool
  m_stopping : Bool
  m_done_num : ℕ
  /-- The call of `Done` that has `m_submission_mutex`, and whether the GPU thread makes it. -/
  done : Option (Bool × DoneStage)
  pc : Pc
  /-- The calls so far. -/
  calls : ℕ
  enqueued : ℕ → List ℕ
  started : ℕ → List ℕ
  completed : ℕ → List ℕ
  sent : List Command
  ran : List Command
  finished : List Command

namespace State

/-- The members of a new `GuestGpu`. -/
def init : State where
  m_queues _ := []
  m_commands := []
  m_pending_commands := 0
  m_submission_count := 0
  m_next_queue := 0
  m_processing := false
  m_graphics_done := true
  m_accepting := true
  m_stopping := false
  m_done_num := 0
  done := none
  pc := .top
  calls := 0
  enqueued _ := []
  started _ := []
  completed _ := []
  sent := []
  ran := []
  finished := []

variable (σ : State)

def goto (pc : Pc) : State := { σ with pc := pc }

/-! ## Other threads -/

/-- `Enqueue`; none where it stops the process. -/
def enqueue (submission : Submission) : Option State :=
  if QueueCount ≤ submission.queue_id ∨ σ.m_accepting = false then none
  else
    let q := submission.queue_id
    some { σ with
      m_queues := update σ.m_queues q (σ.m_queues q ++ [submission])
      m_submission_count := σ.m_submission_count + 1
      enqueued := update σ.enqueued q (σ.enqueued q ++ [submission.id])
      calls := σ.calls + 1 }

/-- `Submit` and `SubmitFlipPreparation`: both go to queue 0 and take `m_graphics_done`. -/
def submit (type : SubmissionType) : Option State :=
  { σ with m_graphics_done := false }.enqueue
    { id := σ.calls, type := type, queue_id := 0, reset_processor := σ.m_graphics_done }

def submitCompute (queue : ℕ) : Option State :=
  if queue < compute_queue_base ∨ compute_queue_base + ComputeQueueCount ≤ queue then none
  else σ.enqueue
    { id := σ.calls, type := .compute, queue_id := 1 + (queue - compute_queue_base) }

/-- `SendCommand` of another thread than the GPU thread. -/
def sendCommand : Option State :=
  if σ.m_accepting = false then none
  else
    let c : Command := { id := σ.calls, inline := false }
    some { σ with
      m_commands := σ.m_commands ++ [c]
      m_pending_commands := σ.m_pending_commands + 1
      sent := σ.sent ++ [c]
      calls := σ.calls + 1 }

/-- `SendCommand` of the GPU thread. -/
def runInline : State :=
  let c : Command := { id := σ.calls, inline := true }
  { σ with
    sent := σ.sent ++ [c]
    ran := σ.ran ++ [c]
    finished := σ.finished ++ [c]
    calls := σ.calls + 1 }

/-- `SendCommand` in `BufferWait`, up to the end of the command. -/
def beginInline (inline : List ℕ) : State :=
  let c : Command := { id := σ.calls, inline := true }
  { σ with
    sent := σ.sent ++ [c]
    ran := σ.ran ++ [c]
    calls := σ.calls + 1
    pc := .stopping (σ.calls :: inline) }

/-- The condition of the loop of `WaitForIdle`. -/
def busy : Bool := σ.m_processing || !σ.m_commands.isEmpty || σ.m_submission_count != 0

/-- `Done` takes the mutex, if it is free. -/
def doneBegin (onGpu : Bool) : State :=
  if σ.done.isSome then σ
  else { σ with done := some (onGpu, if onGpu then .capture else .waitForIdle) }

/-- The next section of `Done`. `capturing` is what `RenderDocCaptureInProgress` says. -/
def doneNext (capturing : Bool) : Option State :=
  match σ.done with
  | none => some σ
  | some (onGpu, .waitForIdle) =>
    some (if σ.busy then σ else { σ with done := some (onGpu, .capture) })
  | some (onGpu, .capture) =>
    if !capturing then some { σ with done := some (onGpu, .finish) }
    else if onGpu then some { σ.runInline with done := some (onGpu, .finish) }
    else
      σ.sendCommand.map fun τ =>
        { τ with done := some (onGpu, .awaiting { id := σ.calls, inline := false }) }
  | some (onGpu, .awaiting c) =>
    some (if c ∈ σ.finished then { σ with done := some (onGpu, .finish) } else σ)
  | some (_, .finish) =>
    some { σ with m_graphics_done := true, m_done_num := σ.m_done_num + 1, done := none }

/-- `Shutdown` up to the join of the thread. -/
def shutdown : State := { σ with m_accepting := false, m_stopping := true }

/-! ## The GPU thread -/

/-- The loop that unblocks the first submission of each queue. -/
def unblockAll (m_queues : ℕ → List Submission) (q : ℕ) : List Submission :=
  match m_queues q with
  | [] => []
  | s :: rest => if q < QueueCount then { s with blocked := false } :: rest else s :: rest

/-- The first queue from `m_next_queue` on whose first submission is not blocked. -/
def selectQueue : Option ℕ :=
  ((List.range QueueCount).map fun offset => (σ.m_next_queue + offset) % QueueCount).find? fun id =>
    match σ.m_queues id with
    | [] => false
    | s :: _ => !s.blocked

/-- A command leaves the queue and begins to run; none where an `EXIT_IF` stops the process. -/
def takeCommand (next : Command → Pc) : Option State :=
  match σ.m_commands with
  | [] => none
  | c :: rest =>
    if σ.m_pending_commands = 0 then none
    else some { σ with
      m_commands := rest
      m_pending_commands := σ.m_pending_commands - 1
      m_processing := true
      ran := σ.ran ++ [c]
      pc := next c }

/-- A submission leaves its queue, and `Process` begins. -/
def takeSubmission (q : ℕ) (s : Submission) (rest : List Submission) : State :=
  { σ with
    m_queues := update σ.m_queues q rest
    m_submission_count := σ.m_submission_count - 1
    m_next_queue := (q + 1) % QueueCount
    m_processing := true
    started := if s.started then σ.started
      else update σ.started s.queue_id (σ.started s.queue_id ++ [s.id])
    pc := .processing { s with started := true } }

/-- The section at the top of the loop of `ThreadRun`. -/
def selectWork : Option State :=
  if σ.m_commands = [] ∧ σ.m_submission_count = 0 ∧ σ.m_stopping = false then
    some { σ with m_processing := false }
  else if σ.m_stopping = true ∧ σ.m_commands = [] ∧ σ.m_submission_count = 0 then
    some { σ with m_processing := false, pc := .stopping [] }
  else if σ.m_commands ≠ [] then σ.takeCommand .running
  else
    match σ.selectQueue with
    | none => some { σ with m_processing := false, pc := .resting }
    | some q =>
      match σ.m_queues q with
      | [] => none
      | s :: rest => some (σ.takeSubmission q s rest)

/-- A command has run. -/
def finishCommand (c : Command) : State := { σ with finished := σ.finished ++ [c] }

/-- The section after `Process`. -/
def finishSubmission (s : Submission) (complete : Bool) : State :=
  if complete then
    { σ with
      m_queues := unblockAll σ.m_queues
      m_processing := false
      completed := update σ.completed s.queue_id (σ.completed s.queue_id ++ [s.id])
      pc := .top }
  else
    { σ with
      m_queues := update σ.m_queues s.queue_id
        ({ s with blocked := true } :: σ.m_queues s.queue_id)
      m_submission_count := σ.m_submission_count + 1
      m_processing := false
      pc := .top }

/-- What the GPU thread may do where it has a choice. -/
inductive Choice
  | sendCommand
  | processCommands
  /-- `Process` returns. -/
  | finish (complete : Bool)
  deriving DecidableEq

/-- The condition of the loop of `ProcessCommands`. -/
def drain (s : Submission) : State :=
  if σ.m_pending_commands ≠ 0 then σ.goto (.draining s) else σ.goto (.processing s)

/-- The next step of the GPU thread. -/
def gpu (choice : Choice) : Option State :=
  match σ.pc with
  | .top => σ.selectWork
  | .resting => some { σ with m_queues := unblockAll σ.m_queues, pc := .top }
  | .running c =>
    match choice with
    | .sendCommand => some σ.runInline
    | _ => some { σ.finishCommand c with m_processing := false, pc := .top }
  | .processing s =>
    match choice with
    | .sendCommand => some σ.runInline
    | .processCommands => some (σ.drain s)
    | .finish complete => some (σ.finishSubmission s complete)
  | .draining s => σ.takeCommand (.drainRunning s)
  | .drainRunning s c =>
    match choice with
    | .sendCommand => some σ.runInline
    | _ => some ((σ.finishCommand c).drain s)
  | .stopping inline =>
    match choice, inline with
    | .sendCommand, _ => some (σ.beginInline inline)
    | _, [] => some (σ.goto .stopped)
    | _, id :: rest => some ((σ.finishCommand { id, inline := true }).goto (.stopping rest))
  | .stopped => some σ

/-! ## Steps -/

/-- What can happen next. `SendCommandSync` sends a command and waits for it. -/
inductive Op
  | submit
  | submitCompute (queue : ℕ)
  | submitFlipPreparation
  | sendCommand
  | doneBegin (onGpu : Bool)
  | doneNext (capturing : Bool)
  | shutdown
  | gpu (choice : Choice)
  deriving DecidableEq

/-- A submission has to wait while `Done` has the mutex. -/
def withSubmissionMutex (next : Option State) : Option State :=
  if σ.done.isSome then some σ else next

def step (σ : State) : Op → Option State
  | .submit => σ.withSubmissionMutex (σ.submit .graphics)
  | .submitCompute queue => σ.withSubmissionMutex (σ.submitCompute queue)
  | .submitFlipPreparation => σ.withSubmissionMutex (σ.submit .flipPreparation)
  | .sendCommand => σ.sendCommand
  | .doneBegin onGpu => some (σ.doneBegin onGpu)
  | .doneNext capturing => σ.doneNext capturing
  | .shutdown => some σ.shutdown
  | .gpu choice => σ.gpu choice

/-- A run of any interleaving, none where the process stops. -/
def run (ops : List Op) : Option State := ops.foldlM step init

end State

end MagnusPS5.Graphics.GuestGpu
