/-
`Pm4Execution` and the calls of `CommandProcessor::Process` that work on it
(`graphicsRun.cpp`), and the run of the same stream that is never interrupted.

A handler may call `ProcessIndirectBuffer`, and with it `ProcessPm4` again, so `Control` keeps the
calls that have not returned: a `Caller` is a round of `ProcessPm4` that waits for its handler.
One step is one round of `ProcessPm4`, or one return. The state may change between any two steps:
other threads write to memory, and `ProcessCommands` runs at the start of each round.

`Straight` is the uninterrupted run. It has a stack of return addresses, and where a test fails it
tests again.
-/
import MagnusPS5.Graphics.Pm4Packets
import MagnusPS5.Lib.Stuttering
import Mathlib.Data.Int.Notation

namespace MagnusPS5.Graphics.Pm4

/-- `Pm4Execution::BufferCursor`; a packet is named by its address. -/
structure BufferCursor where
  next_packet : ℕ
  remaining_dw : ℕ
  total_dw : ℕ
  deferred_advance_dw : ℕ
  deriving DecidableEq

/-- Where `next_packet` and `remaining_dw` go. -/
def BufferCursor.advance (c : BufferCursor) (dw : ℕ) : BufferCursor :=
  { c with next_packet := c.next_packet + 4 * dw, remaining_dw := c.remaining_dw - dw }

/-- The locals of a round of `ProcessPm4` whose handler has called `ProcessIndirectBuffer`, and
what `packet_dw` is going to be. -/
structure Caller where
  stop_depth : ℕ
  buffer_index : ℕ
  remaining_dw : ℕ
  packet_dw : ℕ
  deriving DecidableEq

/-- Where the process stops. -/
inductive Reason
  /-- `deferred_advance_dw > remaining_dw`. -/
  | deferredAdvance
  /-- `packet_dw > remaining_dw`. -/
  | packetLength
  /-- `m_buffer_stack.size() != buffer_index + 1`. -/
  | stackSize
  /-- A check of the packet, or of its handler. -/
  | packet
  deriving DecidableEq

inductive Control
  /-- At the condition of the loop of `ProcessPm4`. -/
  | loop (stop_depth : ℕ) (callers : List Caller)
  /-- `ProcessPm4` has returned to the handler of the first caller. -/
  | leave (callers : List Caller)
  /-- `Process` has returned. -/
  | returned
  | exited (reason : Reason)
  deriving DecidableEq

/-- What happens to the packets, each with its address. -/
inductive Event
  /-- The handler of a packet that does not wait was run. -/
  | ran (packet : ℕ)
  /-- It was run, and has entered a buffer. -/
  | entered (packet buffer size_dw : ℕ)
  /-- The test of a waiting packet. -/
  | tested (packet : ℕ) (ok : Bool)
  /-- A filler, or a predicated packet. -/
  | skipped (packet : ℕ)
  deriving DecidableEq

/-- The position of the stream goes past the packet. -/
def Event.passes : Event → Bool
  | .ran _ => true
  | .entered _ _ _ => false
  | .tested _ ok => ok
  | .skipped _ => true

/-- The packets that the position has gone past. -/
def passed (log : List Event) : ℕ := log.countP Event.passes

variable {S : Type*}

/-- A `Pm4Execution` with the state that its handlers work on. The back of `m_buffer_stack` is the
head of the list; the latest event is the head of `log`, and `mark` is `passed` at the start of the
call of `Process`. -/
structure Machine (S : Type*) where
  memory : S
  m_buffer_stack : List BufferCursor
  m_suspended : Bool
  m_made_progress : Bool
  control : Control
  log : List Event
  mark : ℕ

namespace Machine

variable (m : Machine S)

def exit (reason : Reason) : Machine S := { m with control := .exited reason }

def note (e : Event) : Machine S := { m with log := e :: m.log }

/-- What is done to `m_buffer_stack[buffer_index]`. -/
def modifyCursor (buffer_index : ℕ) (f : BufferCursor → BufferCursor) : Machine S :=
  { m with
    m_buffer_stack := m.m_buffer_stack.modify (m.m_buffer_stack.length - 1 - buffer_index) f }

/-- The rest of a round of `ProcessPm4` whose handler has returned. -/
def handled (caller : Caller) (callers : List Caller) : Machine S :=
  if caller.remaining_dw < caller.packet_dw then m.exit .packetLength
  else if m.m_suspended then
    let m := if caller.buffer_index + 1 < m.m_buffer_stack.length then
        m.modifyCursor caller.buffer_index fun c => { c with deferred_advance_dw := caller.packet_dw }
      else m
    { m with control := .leave callers }
  else if m.m_buffer_stack.length ≠ caller.buffer_index + 1 then m.exit .stackSize
  else
    { m.modifyCursor caller.buffer_index (·.advance caller.packet_dw) with
      m_made_progress := true
      control := .loop caller.stop_depth callers }

/-- `ProcessIndirectBuffer` in the handler of a packet, with the round of `ProcessPm4` that called
the handler. -/
def ProcessIndirectBuffer (packet buffer size_dw : ℕ) (caller : Caller)
    (callers : List Caller) : Machine S :=
  if size_dw = 0 then (m.note (.ran packet)).handled caller callers
  else
    { m.note (.entered packet buffer size_dw) with
      m_buffer_stack := ⟨buffer, size_dw, size_dw, 0⟩ :: m.m_buffer_stack
      control := .loop m.m_buffer_stack.length (caller :: callers) }

variable (P : Processor S)

/-- A round of `ProcessPm4` at the packet it has come to. -/
def round (cursor : BufferCursor) (rest : List BufferCursor) (stop_depth : ℕ)
    (callers : List Caller) : Machine S :=
  match P.packet m.memory cursor.next_packet cursor.remaining_dw cursor.total_dw with
  | .skip dw =>
    { m.note (.skipped cursor.next_packet) with
      m_buffer_stack := cursor.advance dw :: rest
      m_made_progress := true }
  | .handled .exit => m.exit .packet
  | .handled (.ran memory dw) =>
    ({ m with memory := memory }.note (.ran cursor.next_packet)).handled
      ⟨stop_depth, rest.length, cursor.remaining_dw, dw + 1⟩ callers
  | .handled (.tested ok dw) =>
    ({ m with m_suspended := m.m_suspended || !ok }.note (.tested cursor.next_packet ok)).handled
      ⟨stop_depth, rest.length, cursor.remaining_dw, dw + 1⟩ callers
  | .handled (.entered buffer size_dw dw) =>
    m.ProcessIndirectBuffer cursor.next_packet buffer size_dw
      ⟨stop_depth, rest.length, cursor.remaining_dw, dw + 1⟩ callers

/-- The loop of `ProcessPm4`, at its condition. -/
def ProcessPm4 (stop_depth : ℕ) (callers : List Caller) : Machine S :=
  if m.m_buffer_stack.length ≤ stop_depth then { m with control := .leave callers }
  else
    match m.m_buffer_stack with
    | [] => m
    | cursor :: rest =>
      if cursor.deferred_advance_dw ≠ 0 then
        if cursor.remaining_dw < cursor.deferred_advance_dw then m.exit .deferredAdvance
        else
          { m with
            m_buffer_stack :=
              { cursor.advance cursor.deferred_advance_dw with deferred_advance_dw := 0 } :: rest
            m_made_progress := true }
      else if cursor.remaining_dw = 0 then { m with m_buffer_stack := rest }
      else m.round P cursor rest stop_depth callers

/-- One step of the thread in `Process`. -/
def step : Machine S :=
  match m.control with
  | .loop stop_depth callers => m.ProcessPm4 P stop_depth callers
  | .leave [] => { m with control := .returned }
  | .leave (caller :: callers) => m.handled caller callers
  | .returned => m
  | .exited _ => m

/-- `Process`, up to its call of `ProcessPm4`. -/
def Process (buffer size_dw : ℕ) : Machine S :=
  { m with
    m_buffer_stack :=
      if m.m_buffer_stack = [] ∧ size_dw ≠ 0 then [⟨buffer, size_dw, size_dw, 0⟩]
      else m.m_buffer_stack
    m_suspended := false
    m_made_progress := false
    control := .loop 0 []
    mark := passed m.log }

end Machine

/-- What can happen: the thread in `Process` does a step, the state is changed from elsewhere, or a
submission that is not complete is processed again. -/
inductive Op (S : Type*)
  | step
  | change (memory : S)
  | process

/-- The change that is made from elsewhere. -/
def Op.changed : Op S → Option S
  | .change memory => some memory
  | _ => none

variable (P : Processor S)

/-- The submission is in `buffer` and has `size_dw` dwords. -/
def Machine.apply (buffer size_dw : ℕ) : Op S → Machine S → Machine S
  | .step, m => m.step P
  | .change memory, m => { m with memory := memory }
  | .process, m =>
    if m.control = .returned ∧ m.m_buffer_stack ≠ [] then m.Process buffer size_dw else m

/-- A new `Pm4Execution` in the first call of `Process`. -/
def Machine.start (memory : S) (buffer size_dw : ℕ) : Machine S :=
  Machine.Process ⟨memory, [], false, false, .returned, [], 0⟩ buffer size_dw

/-! ## The uninterrupted run -/

/-- A place to go on at: the next packet and the dwords from it to the end of its buffer. There are
less than none where a packet is longer than what is left. -/
structure Frame where
  packet : ℕ
  remaining : ℤ
  total : ℕ
  deriving DecidableEq

def Frame.past (f : Frame) (dw : ℕ) : Frame := ⟨f.packet + 4 * dw, f.remaining - dw, f.total⟩

/-- The state of the uninterrupted run: the frame it is in, then those it returns to. -/
structure Straight (S : Type*) where
  memory : S
  frames : List Frame
  log : List Event

/-- What the uninterrupted run does at the packet of the frame it is in. -/
def Straight.act (memory : S) (f : Frame) (rest : List Frame) (log : List Event) :
    Processor.Outcome S → Option (Straight S)
  | .skip dw => some ⟨memory, f.past dw :: rest, .skipped f.packet :: log⟩
  | .handled .exit => none
  | .handled (.ran memory' dw) =>
    if f.remaining < dw + 1 then none
    else some ⟨memory', f.past (dw + 1) :: rest, .ran f.packet :: log⟩
  | .handled (.tested ok dw) =>
    if f.remaining < dw + 1 then none
    else some ⟨memory, (if ok then f.past (dw + 1) else f) :: rest, .tested f.packet ok :: log⟩
  | .handled (.entered buffer size_dw dw) =>
    if size_dw = 0 then
      if f.remaining < dw + 1 then none
      else some ⟨memory, f.past (dw + 1) :: rest, .ran f.packet :: log⟩
    else
      some ⟨memory, ⟨buffer, size_dw, size_dw⟩ :: f.past (dw + 1) :: rest,
        .entered f.packet buffer size_dw :: log⟩

/-- **The next step of the uninterrupted run**; none at its end, and where it stops the process. -/
def Straight.next (r : Straight S) : Option (Straight S) :=
  match r.frames with
  | [] => none
  | f :: rest =>
    if f.remaining < 0 then none
    else if f.remaining = 0 then some { r with frames := rest }
    else
      Straight.act r.memory f rest r.log
        (P.packet r.memory f.packet f.remaining.toNat f.total)

/-- A step of the uninterrupted run, or a change of the state from elsewhere. -/
def Straight.Moves (changed : Option S) (r r' : Straight S) : Prop :=
  match changed with
  | none => r.next P = some r'
  | some memory => r' = { r with memory := memory }

/-- The uninterrupted run before the first packet of a submission. -/
def Straight.start (memory : S) (buffer size_dw : ℕ) : Straight S :=
  ⟨memory, if size_dw = 0 then [] else [⟨buffer, size_dw, size_dw⟩], []⟩

/-! ## What an execution stands for -/

/-- Where a cursor goes on after `ahead` more dwords. -/
def BufferCursor.frame (c : BufferCursor) (ahead : ℕ) : Frame :=
  ⟨c.next_packet + 4 * ahead, c.remaining_dw - ahead, c.total_dw⟩

/-- Each cursor goes on after its deferred advance, or after the packet of the caller that waits
at it. -/
def frames : List Caller → List BufferCursor → List Frame
  | _, [] => []
  | [], cursor :: rest => cursor.frame cursor.deferred_advance_dw :: frames [] rest
  | caller :: callers, cursor :: rest =>
    if caller.buffer_index = rest.length then
      cursor.frame caller.packet_dw :: frames callers rest
    else cursor.frame cursor.deferred_advance_dw :: frames (caller :: callers) rest

def Control.callers : Control → List Caller
  | .loop _ callers => callers
  | .leave callers => callers
  | .returned => []
  | .exited _ => []

/-- Where the uninterrupted run is. -/
def Machine.straight (m : Machine S) : Straight S :=
  ⟨m.memory, frames m.control.callers m.m_buffer_stack, m.log⟩

end MagnusPS5.Graphics.Pm4
