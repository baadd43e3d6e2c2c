/-
A `Pm4Execution` over any number of calls of `Process` does what the uninterrupted run does.

`Shape` is the invariant of the buffer stack: above the cursors of earlier calls, which have their
advance in `deferred_advance_dw`, stand those of the callers, which have it in `packet_dw`, and at
most one cursor more. `Moved` says what one step of the thread can do to a stack of that shape; the
invariants, the refinement and the rank of the silent steps are read off it.
-/
import MagnusPS5.Graphics.Pm4Execution
import Mathlib.Tactic.Ring

namespace MagnusPS5.Graphics.Pm4

open Lib List Nat Machine BufferCursor Straight Control Pm4

variable {S : Type*} {P : Processor S} {m m' : Machine S}

/-! ## The shape of the buffer stack -/

/-- A cursor that an earlier call of `Process` has left in the middle of a packet. -/
def BufferCursor.Waiting (c : BufferCursor) : Prop :=
  0 < c.deferred_advance_dw ∧ c.deferred_advance_dw ≤ c.remaining_dw

/-- A cursor at a packet. -/
def BufferCursor.AtPacket (c : BufferCursor) : Prop :=
  c.deferred_advance_dw = 0 ∧ 0 < c.remaining_dw

/-- Where the loop inside the first caller stops. -/
def stopOf : List Caller → ℕ
  | [] => 0
  | caller :: _ => caller.buffer_index + 1

/-- The stack ends with the cursors of the callers, and those of earlier calls below them. -/
def Chain : List Caller → List BufferCursor → Prop
  | [], stack => ∀ c ∈ stack, c.Waiting
  | _ :: _, [] => False
  | caller :: callers, cursor :: rest =>
    caller.buffer_index = rest.length ∧ caller.remaining_dw = cursor.remaining_dw ∧
      cursor.deferred_advance_dw = 0 ∧ 0 < caller.packet_dw ∧ caller.stop_depth = stopOf callers ∧
      Chain callers rest

/-- The callers and their cursors are the top of the stack. -/
def AtCallers (callers : List Caller) (stack : List BufferCursor) : Prop :=
  Chain callers stack ∧ (callers = [] → stack = [])

/-- The execution waits at the packet on top of `callers`, whose test has failed. -/
structure Blocked (stack : List BufferCursor) (log : List Event) (callers : List Caller)
    (top : BufferCursor) (above rest : List BufferCursor) : Prop where
  stack : stack = top :: (above ++ rest)
  at_packet : top.AtPacket
  waiting : ∀ c ∈ above, c.Waiting
  chain : Chain callers rest
  tested : log.head? = some (.tested top.next_packet false)

/-- The invariant of an execution. -/
def Shape (m : Machine S) : Prop :=
  match m.control with
  | .loop stop_depth callers =>
    stop_depth = stopOf callers ∧ m.m_suspended = false ∧
      (AtCallers callers m.m_buffer_stack ∨ ∃ top rest, m.m_buffer_stack = top :: rest ∧
        top.deferred_advance_dw ≤ top.remaining_dw ∧ Chain callers rest)
  | .leave callers =>
    if m.m_suspended then ∃ top above rest, Blocked m.m_buffer_stack m.log callers top above rest
    else AtCallers callers m.m_buffer_stack
  | .returned =>
    m.m_buffer_stack = [] ∨ ∃ top above, Blocked m.m_buffer_stack m.log [] top above []
  | .exited reason => reason ≠ .deferredAdvance ∧ reason ≠ .stackSize

variable {caller : Caller} {callers : List Caller} {stack rest : List BufferCursor}
  {cursor top : BufferCursor}

theorem Chain.length_eq
    (h : Chain (caller :: callers) stack) : stack.length = caller.buffer_index + 1 := by
  cases stack with
  | nil => exact h.elim
  | cons cursor rest => rw [length_cons, h.1]

theorem Chain.stopOf_le (h : Chain callers stack) : stopOf callers ≤ stack.length := by
  cases callers with
  | nil => exact zero_le _
  | cons caller callers => exact (le_of_eq h.length_eq.symm)

theorem AtCallers.length_eq (h : AtCallers callers stack) : stack.length = stopOf callers := by
  cases callers with
  | nil => rw [h.2 rfl]; rfl
  | cons caller callers => exact h.1.length_eq

/-! ## The handler returns -/

theorem modifyCursor_of_stack (above : List BufferCursor)
    (h : m.m_buffer_stack = above ++ cursor :: rest) (f : BufferCursor → BufferCursor) :
    m.modifyCursor rest.length f = { m with m_buffer_stack := above ++ f cursor :: rest } := by
  have hindex : m.m_buffer_stack.length - 1 - rest.length = above.length + 0 := by
    rw [h, length_append, length_cons]
    omega
  unfold modifyCursor
  rw [hindex, h, List.modify, modifyTailIdx_add]
  rfl

theorem handled_overrun (callers : List Caller) (h : caller.remaining_dw < caller.packet_dw) :
    m.handled caller callers = m.exit .packetLength := if_pos h

theorem handled_advance (callers : List Caller) (h : ¬ caller.remaining_dw < caller.packet_dw)
    (hsuspended : m.m_suspended = false) (hstack : m.m_buffer_stack = cursor :: rest)
    (hindex : caller.buffer_index = rest.length) :
    m.handled caller callers =
      { m with
        m_buffer_stack := cursor.advance caller.packet_dw :: rest
        m_made_progress := true
        control := .loop caller.stop_depth callers } := by
  have hsize : ¬ m.m_buffer_stack.length ≠ caller.buffer_index + 1 := by
    rw [hstack, hindex, length_cons]
    simp
  unfold handled
  rw [if_neg h, if_neg (by simp [hsuspended]), if_neg hsize, hindex,
    modifyCursor_of_stack [] hstack]
  rfl

theorem handled_suspended (callers : List Caller)
    (h : ¬ caller.remaining_dw < caller.packet_dw) (hsuspended : m.m_suspended = true)
    (hsize : m.m_buffer_stack.length = caller.buffer_index + 1) :
    m.handled caller callers = { m with control := .leave callers } := by
  unfold handled
  rw [if_neg h, if_pos hsuspended, if_neg (by omega)]

variable {above : List BufferCursor} {e : Event} {buffer size_dw dw stop_depth : ℕ} {ok : Bool}
  {memory : S}

theorem handled_defer (callers : List Caller) (h : ¬ caller.remaining_dw < caller.packet_dw)
    (hsuspended : m.m_suspended = true)
    (hstack : m.m_buffer_stack = top :: (above ++ cursor :: rest))
    (hindex : caller.buffer_index = rest.length) :
    m.handled caller callers =
      { m with
        m_buffer_stack :=
          top :: (above ++ { cursor with deferred_advance_dw := caller.packet_dw } :: rest)
        control := .leave callers } := by
  have hsize : caller.buffer_index + 1 < m.m_buffer_stack.length := by
    rw [hstack, hindex, length_cons, length_append, length_cons]
    omega
  unfold handled
  rw [if_neg h, if_pos hsuspended, if_pos hsize, hindex,
    modifyCursor_of_stack (top :: above) hstack]
  rfl

/-! ## Where the uninterrupted run is -/

/-- Where a cursor that no caller waits at goes on. -/
def BufferCursor.own (c : BufferCursor) : Frame := c.frame c.deferred_advance_dw

theorem frame_zero (c : BufferCursor) : c.frame 0 = ⟨c.next_packet, c.remaining_dw, c.total_dw⟩ := by
  simp [frame]

theorem frame_past (c : BufferCursor) (dw : ℕ) : (c.frame 0).past dw = c.frame dw := by
  simp [frame, Frame.past]

theorem frame_advance {c : BufferCursor} (h : dw ≤ c.remaining_dw) :
    (c.advance dw).frame 0 = c.frame dw := by
  simp only [frame, advance, Frame.mk.injEq, and_true]
  refine ⟨by omega, ?_⟩
  rw [cast_sub h]
  omega

theorem frames_chain (h : Chain (caller :: callers) (cursor :: rest)) :
    frames (caller :: callers) (cursor :: rest) =
      cursor.frame caller.packet_dw :: frames callers rest := if_pos h.1

theorem frames_above (h : Chain callers rest) (above : List BufferCursor) :
    frames callers (above ++ rest) = above.map own ++ frames callers rest := by
  induction above with
  | nil => rfl
  | cons top above ih =>
    rw [cons_append, map_cons, cons_append, ← ih]
    cases callers with
    | nil => rfl
    | cons caller callers =>
      -- the cursor of the first caller is the top of `rest`
      have hlength := h.length_eq
      refine if_neg ?_
      rw [length_append, hlength]
      omega

theorem frames_top
    (h : Chain callers rest) : frames callers (top :: rest) = top.own :: frames callers rest :=
  frames_above h [top]

theorem own_of_atPacket (h : top.AtPacket) : top.own = top.frame 0 := by
  rw [own, h.1]

theorem room {n : ℕ} (h : dw + 1 ≤ n) : ¬ (n : ℤ) < dw + 1 := by omega

theorem next_of_atPacket
    (hc : m.control.callers = callers) (hstack : m.m_buffer_stack = top :: rest)
    (hchain : Chain callers rest) (hpacket : top.AtPacket) :
    m.straight.next P = act m.memory (top.frame 0) (frames callers rest) m.log
      (P.packet m.memory top.next_packet top.remaining_dw top.total_dw) := by
  have hframes : m.straight.frames = top.frame 0 :: frames callers rest := by
    rw [← own_of_atPacket hpacket, ← frames_top hchain, ← hstack, ← hc]
    rfl
  have hpos := hpacket.2
  unfold Straight.next
  rw [hframes]
  simp only [frame_zero, Int.toNat_natCast]
  rw [if_neg (by omega), if_neg (by omega)]
  rfl

/-- The uninterrupted run stops the process here, or at the latest when it comes back to a buffer
where a packet is longer than what is left. -/
def Machine.Stops (P : Processor S) (m : Machine S) : Prop :=
  m.straight.next P = none ∨ ∃ f ∈ m.straight.frames, f.remaining < 0

theorem Chain.stops (h : Chain (caller :: callers) rest)
    (hlong : caller.remaining_dw < caller.packet_dw) (hc : m.control.callers = caller :: callers)
    (above : List BufferCursor) (hstack : m.m_buffer_stack = above ++ rest) : m.Stops P := by
  cases rest with
  | nil => exact h.elim
  | cons cursor rest =>
    have hframe : cursor.frame caller.packet_dw ∈ m.straight.frames := by
      rw [straight, hc, hstack, frames_above h, frames_chain h]
      simp
    have hremaining := h.2.1
    refine .inr ⟨_, hframe, ?_⟩
    simp only [frame]
    omega

/-! ## What a step does -/

/-- A packet that is passed at once: what becomes of the state, how many dwords it has, and what
happens to it. -/
inductive Passes (P : Processor S) (memory : S) (cursor : BufferCursor) : S → ℕ → Event → Prop
  | skip {dw : ℕ} (h : P.packet memory cursor.next_packet cursor.remaining_dw cursor.total_dw =
      .skip dw) : Passes P memory cursor memory dw (.skipped cursor.next_packet)
  | ran {memory' : S} {dw : ℕ}
      (h : P.packet memory cursor.next_packet cursor.remaining_dw cursor.total_dw =
        .handled (.ran memory' dw)) :
      Passes P memory cursor memory' (dw + 1) (.ran cursor.next_packet)
  | tested {dw : ℕ}
      (h : P.packet memory cursor.next_packet cursor.remaining_dw cursor.total_dw =
        .handled (.tested true dw)) :
      Passes P memory cursor memory (dw + 1) (.tested cursor.next_packet true)
  | empty {buffer dw : ℕ}
      (h : P.packet memory cursor.next_packet cursor.remaining_dw cursor.total_dw =
        .handled (.entered buffer 0 dw)) :
      Passes P memory cursor memory (dw + 1) (.ran cursor.next_packet)

/-- **What one step of the thread does to an execution.** -/
inductive Moved (P : Processor S) (m : Machine S) : Machine S → Prop
  /-- The loop ends. -/
  | ended {callers : List Caller} (hc : m.control = .loop (stopOf callers) callers)
      (hsuspended : m.m_suspended = false) (hat : AtCallers callers m.m_buffer_stack) :
      Moved P m { m with control := .leave callers }
  /-- The advance of an earlier call is made up for. -/
  | deferred {callers : List Caller} {top : BufferCursor} {rest : List BufferCursor}
      (hc : m.control = .loop (stopOf callers) callers) (hsuspended : m.m_suspended = false)
      (hstack : m.m_buffer_stack = top :: rest) (hchain : Chain callers rest)
      (hpos : 0 < top.deferred_advance_dw) (hfits : top.deferred_advance_dw ≤ top.remaining_dw) :
      Moved P m { m with
        m_buffer_stack :=
          { top.advance top.deferred_advance_dw with deferred_advance_dw := 0 } :: rest
        m_made_progress := true }
  /-- The end of a buffer. -/
  | pop {callers : List Caller} {top : BufferCursor} {rest : List BufferCursor}
      (hc : m.control = .loop (stopOf callers) callers) (hsuspended : m.m_suspended = false)
      (hstack : m.m_buffer_stack = top :: rest) (hchain : Chain callers rest)
      (hdeferred : top.deferred_advance_dw = 0) (hend : top.remaining_dw = 0) :
      Moved P m { m with m_buffer_stack := rest }
  /-- A packet that is passed. -/
  | pass {callers : List Caller} {top : BufferCursor} {rest : List BufferCursor} {memory : S}
      {dw : ℕ} {e : Event} (hc : m.control = .loop (stopOf callers) callers)
      (hsuspended : m.m_suspended = false) (hstack : m.m_buffer_stack = top :: rest)
      (hchain : Chain callers rest) (hpacket : top.AtPacket)
      (hpass : Passes P m.memory top memory dw e) (hfits : dw ≤ top.remaining_dw) :
      Moved P m { m with
        memory := memory
        m_buffer_stack := top.advance dw :: rest
        m_made_progress := true
        log := e :: m.log
        control := .loop (stopOf callers) callers }
  /-- A test that fails. -/
  | block {callers : List Caller} {top : BufferCursor} {rest : List BufferCursor} {dw : ℕ}
      (hc : m.control = .loop (stopOf callers) callers)
      (hstack : m.m_buffer_stack = top :: rest)
      (hchain : Chain callers rest) (hpacket : top.AtPacket)
      (htest : P.packet m.memory top.next_packet top.remaining_dw top.total_dw =
        .handled (.tested false dw)) (hfits : dw + 1 ≤ top.remaining_dw) :
      Moved P m { m with
        m_suspended := true
        log := .tested top.next_packet false :: m.log
        control := .leave callers }
  /-- A buffer is entered. -/
  | enter {callers : List Caller} {top : BufferCursor} {rest : List BufferCursor}
      {buffer size_dw dw : ℕ} (hc : m.control = .loop (stopOf callers) callers)
      (hsuspended : m.m_suspended = false) (hstack : m.m_buffer_stack = top :: rest)
      (hchain : Chain callers rest) (hpacket : top.AtPacket)
      (henter : P.packet m.memory top.next_packet top.remaining_dw top.total_dw =
        .handled (.entered buffer size_dw dw)) (hsize : size_dw ≠ 0) :
      Moved P m { m with
        m_buffer_stack := ⟨buffer, size_dw, size_dw, 0⟩ :: top :: rest
        log := .entered top.next_packet buffer size_dw :: m.log
        control := .loop (rest.length + 1)
          (⟨stopOf callers, rest.length, top.remaining_dw, dw + 1⟩ :: callers) }
  /-- The handler of a caller returns with its buffer at its end. -/
  | advance {caller : Caller} {callers : List Caller} {cursor : BufferCursor}
      {rest : List BufferCursor} (hc : m.control = .leave (caller :: callers))
      (hsuspended : m.m_suspended = false) (hstack : m.m_buffer_stack = cursor :: rest)
      (hchain : Chain (caller :: callers) (cursor :: rest))
      (hfits : caller.packet_dw ≤ cursor.remaining_dw) :
      Moved P m { m with
        m_buffer_stack := cursor.advance caller.packet_dw :: rest
        m_made_progress := true
        control := .loop (stopOf callers) callers }
  /-- The handler of a caller returns from a suspended execution. -/
  | defer {caller : Caller} {callers : List Caller} {top cursor : BufferCursor}
      {above rest : List BufferCursor} (hc : m.control = .leave (caller :: callers))
      (hsuspended : m.m_suspended = true)
      (hblocked : Blocked m.m_buffer_stack m.log (caller :: callers) top above (cursor :: rest))
      (hfits : caller.packet_dw ≤ cursor.remaining_dw) :
      Moved P m { m with
        m_buffer_stack :=
          top :: (above ++ { cursor with deferred_advance_dw := caller.packet_dw } :: rest)
        control := .leave callers }
  /-- `Process` returns. -/
  | return (hc : m.control = .leave []) : Moved P m { m with control := .returned }
  /-- The process stops. -/
  | exit {memory : S} {suspended : Bool} {log : List Event} {reason : Reason}
      (hdeferred : reason ≠ .deferredAdvance) (hsize : reason ≠ .stackSize) (hstops : m.Stops P) :
      Moved P m { m with
        memory := memory
        m_suspended := suspended
        log := log
        control := .exited reason }
  /-- No call is running. -/
  | stay (hc : m.control = .returned ∨ ∃ reason, m.control = .exited reason) : Moved P m m

theorem Passes.overrun (h : Passes P m.memory top memory dw e) (hpacket : top.AtPacket)
    (hlong : top.remaining_dw < dw) (rest : List Frame) (log : List Event) :
    act m.memory (top.frame 0) rest log
      (P.packet m.memory top.next_packet top.remaining_dw top.total_dw) = none := by
  rw [frame_zero]
  cases h with
  | skip h =>
    obtain ⟨_, hle⟩ := P.packet_skip hpacket.2 h
    omega
  | ran h | tested h | empty h =>
    rw [h]
    exact if_pos (by dsimp only; omega)

section

variable (hc : m.control = .loop (stopOf callers) callers) (hsuspended : m.m_suspended = false)
  (hstack : m.m_buffer_stack = top :: rest) (hchain : Chain callers rest) (hpacket : top.AtPacket)

include hc hsuspended hstack hchain hpacket

theorem handled_moved (hpass : Passes P m.memory top memory (dw + 1) e) :
    Moved P m (({ m with memory := memory }.note e).handled
      ⟨stopOf callers, rest.length, top.remaining_dw, dw + 1⟩ callers) := by
  by_cases hlong : top.remaining_dw < dw + 1
  · rw [handled_overrun callers hlong]
    refine .exit (by simp) (by simp) (.inl ?_)
    rw [next_of_atPacket (by rw [hc]; rfl) hstack hchain hpacket]
    exact hpass.overrun hpacket hlong _ _
  · set n : Machine S := { m with memory := memory }.note e
    rw [handled_advance (m := n) callers hlong hsuspended hstack rfl]
    exact .pass hc hsuspended hstack hchain hpacket hpass (Nat.le_of_not_lt hlong)

theorem round_moved : Moved P m (m.round P top rest (stopOf callers) callers) := by
  have hnext := @next_of_atPacket _ P m callers rest top (by rw [hc]; rfl) hstack hchain hpacket
  unfold Machine.round
  split
  case h_1 dw hp =>
    obtain ⟨_, hle⟩ := P.packet_skip hpacket.2 hp
    have hmove := Moved.pass hc hsuspended hstack hchain hpacket (.skip hp) hle
    rw [← hc] at hmove
    exact hmove
  case h_2 hp =>
    have hmove : Moved P m { m with
        memory := m.memory, m_suspended := m.m_suspended, log := m.log,
        control := .exited .packet } :=
      .exit (by simp) (by simp) (.inl (by rw [hnext, hp]; rfl))
    exact hmove
  case h_3 memory dw hp =>
    exact handled_moved hc hsuspended hstack hchain hpacket (.ran hp)
  case h_4 ok dw hp =>
    cases ok with
    | true =>
      rw [Bool.not_true, Bool.or_false]
      exact handled_moved hc hsuspended hstack hchain hpacket (.tested hp)
    | false =>
      rw [Bool.not_false, Bool.or_true]
      by_cases hlong : top.remaining_dw < dw + 1
      · rw [handled_overrun _ hlong]
        refine .exit (by simp) (by simp) (.inl ?_)
        rw [hnext, hp, frame_zero]
        exact if_pos (by dsimp only; omega)
      · rw [handled_suspended _ hlong rfl (by simp [note, hstack])]
        exact .block hc hstack hchain hpacket hp (by omega)
  case h_5 buffer size_dw dw hp =>
    unfold Machine.ProcessIndirectBuffer
    by_cases hsize : size_dw = 0
    · subst hsize
      rw [if_pos rfl]
      exact handled_moved hc hsuspended hstack hchain hpacket (.empty hp)
    · rw [if_neg hsize, hstack]
      exact .enter hc hsuspended hstack hchain hpacket hp hsize

end

theorem loop_moved (hshape : Shape m)
    (hc : m.control = .loop stop_depth callers) : Moved P m (m.ProcessPm4 P stop_depth callers) := by
  have hloop := hshape
  simp only [Shape, hc] at hloop
  obtain ⟨rfl, hsuspended, hstack⟩ := hloop
  unfold Machine.ProcessPm4
  by_cases hend : m.m_buffer_stack.length ≤ stopOf callers
  · rw [if_pos hend]
    refine .ended hc hsuspended ?_
    rcases hstack with hat | ⟨top, rest, hstack, _, hchain⟩
    · exact hat
    · -- a cursor more would be above the place where the loop stops
      have hle := hchain.stopOf_le
      rw [hstack, length_cons] at hend
      omega
  · rw [if_neg hend]
    rcases hstack with hat | ⟨top, rest, hstack, hfits, hchain⟩
    · exact absurd (le_of_eq hat.length_eq) hend
    simp only [hstack]
    by_cases hdeferred : top.deferred_advance_dw = 0
    · rw [if_neg (not_not.mpr hdeferred)]
      by_cases hremaining : top.remaining_dw = 0
      · rw [if_pos hremaining]
        exact .pop hc hsuspended hstack hchain hdeferred hremaining
      · rw [if_neg hremaining]
        exact round_moved hc hsuspended hstack hchain ⟨hdeferred, by omega⟩
    · rw [if_pos hdeferred, if_neg (by omega)]
      exact .deferred hc hsuspended hstack hchain (by omega) hfits

/-- **The step is one of these.** -/
theorem step_moved (hshape : Shape m) : Moved P m (m.step P) := by
  unfold Machine.step
  split
  case h_1 stop_depth callers hc => exact loop_moved hshape hc
  case h_2 hc => exact .return hc
  case h_3 caller callers hc =>
    have hleave := hshape
    simp only [Shape, hc] at hleave
    by_cases hlong : caller.remaining_dw < caller.packet_dw
    · have hstops : m.Stops P := by
        split at hleave
        · obtain ⟨top, above, rest, hblocked⟩ := hleave
          exact hblocked.chain.stops hlong (by rw [hc]; rfl) (top :: above) hblocked.stack
        · exact hleave.1.stops hlong (by rw [hc]; rfl) [] rfl
      rw [handled_overrun _ hlong]
      have hmove : Moved P m { m with
          memory := m.memory, m_suspended := m.m_suspended, log := m.log,
          control := .exited .packetLength } := .exit (by simp) (by simp) hstops
      exact hmove
    by_cases hsuspended : m.m_suspended = true
    · rw [if_pos hsuspended] at hleave
      obtain ⟨top, above, rest, hblocked⟩ := hleave
      obtain ⟨cursor, below, rfl⟩ : ∃ cursor below, rest = cursor :: below := by
        cases rest with
        | nil => exact hblocked.chain.elim
        | cons cursor below => exact ⟨cursor, below, rfl⟩
      rw [handled_defer callers hlong hsuspended hblocked.stack hblocked.chain.1]
      have hremaining := hblocked.chain.2.1
      exact .defer hc hsuspended hblocked (by omega)
    · rw [if_neg hsuspended] at hleave
      obtain ⟨cursor, rest, hstack⟩ : ∃ cursor rest, m.m_buffer_stack = cursor :: rest :=
        exists_cons_of_length_pos (by rw [hleave.1.length_eq]; omega)
      have hchain := hleave.1
      rw [hstack] at hchain
      have hoff : m.m_suspended = false := by simpa using hsuspended
      rw [handled_advance callers hlong hoff hstack hchain.1, hchain.2.2.2.2.1]
      have hremaining := hchain.2.1
      exact .advance hc hoff hstack hchain (by omega)
  case h_4 hc => exact .stay (.inl hc)
  case h_5 reason hc => exact .stay (.inr ⟨reason, hc⟩)
/-! ## The shape is kept -/

theorem chain_cons (hchain : Chain callers rest) (hpacket : top.AtPacket) (dw : ℕ) :
    Chain (⟨stopOf callers, rest.length, top.remaining_dw, dw + 1⟩ :: callers) (top :: rest) :=
  ⟨rfl, rfl, hpacket.1, succ_pos dw, rfl, hchain⟩

theorem chain_nil : Chain [] stack ↔ ∀ c ∈ stack, c.Waiting := .rfl

theorem pop_shape (h : Chain callers rest) :
    AtCallers callers rest ∨ ∃ top below, rest = top :: below ∧
      top.deferred_advance_dw ≤ top.remaining_dw ∧ Chain callers below := by
  cases callers with
  | cons caller callers => exact .inl ⟨h, by simp⟩
  | nil =>
    cases rest with
    | nil => exact .inl ⟨h, fun _ => rfl⟩
    | cons top below =>
      exact .inr ⟨top, below, rfl, (h top mem_cons_self).2, fun c hc => h c (.tail _ hc)⟩

theorem Moved.shape (h : Moved P m m') (hshape : Shape m) : Shape m' := by
  cases h with
  | ended hc hsuspended hat =>
    simp only [Shape, hsuspended]
    exact hat
  | deferred hc hsuspended hstack hchain hpos hfits =>
    simp only [Shape, hc]
    exact ⟨trivial, hsuspended, .inr ⟨_, _, rfl, zero_le _, hchain⟩⟩
  | pop hc hsuspended hstack hchain hdeferred hend =>
    simp only [Shape, hc]
    exact ⟨trivial, hsuspended, pop_shape hchain⟩
  | pass hc hsuspended hstack hchain hpacket hpass hfits =>
    refine ⟨rfl, hsuspended, .inr ⟨_, _, rfl, ?_, hchain⟩⟩
    rw [BufferCursor.advance, hpacket.1]
    exact zero_le _
  | @block callers top rest dw hc hstack hchain hpacket htest hfits =>
    exact ⟨top, [], rest, hstack, hpacket, by simp, hchain, rfl⟩
  | enter hc hsuspended hstack hchain hpacket henter hsize =>
    exact ⟨rfl, hsuspended, .inr ⟨_, _, rfl, zero_le _, chain_cons hchain hpacket _⟩⟩
  | advance hc hsuspended hstack hchain hfits =>
    refine ⟨rfl, hsuspended, .inr ⟨_, _, rfl, ?_, hchain.2.2.2.2.2⟩⟩
    rw [BufferCursor.advance, hchain.2.2.1]
    exact zero_le _
  | @defer caller callers top cursor above rest hc hsuspended hblocked hfits =>
    have hchain := hblocked.chain
    simp only [Shape, hsuspended]
    refine ⟨top, above ++ [{ cursor with deferred_advance_dw := caller.packet_dw }], rest, ?_,
      hblocked.at_packet, ?_, hchain.2.2.2.2.2, hblocked.tested⟩
    · simp
    · intro c hmem
      rcases mem_append.mp hmem with habove | hlast
      · exact hblocked.waiting c habove
      · rw [mem_singleton.mp hlast]
        exact ⟨hchain.2.2.2.1, hfits⟩
  | «return» hc =>
    have hleave := hshape
    simp only [Shape, hc] at hleave
    by_cases hsuspended : m.m_suspended = true
    · rw [if_pos hsuspended] at hleave
      obtain ⟨top, above, rest, hblocked⟩ := hleave
      refine .inr ⟨top, above ++ rest, ?_, hblocked.at_packet, ?_, by simp [chain_nil],
        hblocked.tested⟩
      · rw [append_nil]
        exact hblocked.stack
      · intro c hmem
        exact (mem_append.mp hmem).elim (hblocked.waiting c) (hblocked.chain c)
    · rw [if_neg hsuspended] at hleave
      exact .inl (hleave.2 rfl)
  | exit hdeferred hsize hstops => exact ⟨hdeferred, hsize⟩
  | stay hc => exact hshape
/-- `ProcessPm4` is at the place of the cursor: it reads the packet there, or leaves the buffer at
its end. -/
def Machine.At (m : Machine S) (top : BufferCursor) : Prop :=
  ∃ stop_depth callers rest, m.control = .loop stop_depth callers ∧
    stop_depth < m.m_buffer_stack.length ∧ m.m_buffer_stack = top :: rest ∧
    top.deferred_advance_dw = 0

theorem at_of_chain
    (hc : m.control = .loop (stopOf callers) callers) (hstack : m.m_buffer_stack = top :: rest)
    (hchain : Chain callers rest) (hdeferred : top.deferred_advance_dw = 0) : m.At top := by
  have hle := hchain.stopOf_le
  refine ⟨_, _, rest, hc, ?_, hstack, hdeferred⟩
  rw [hstack, length_cons]
  omega

theorem frames_at (hshape : Shape m) (h : m.At top) :
    ∃ rest, m.straight.frames = top.frame 0 :: rest := by
  obtain ⟨stop_depth, callers, rest, hc, hlt, hstack, hdeferred⟩ := h
  simp only [Shape, hc] at hshape
  obtain ⟨rfl, _, hat⟩ := hshape
  rcases hat with hat | ⟨_, _, heq, _, hchain⟩
  · exact absurd hlt (by rw [hat.length_eq]; exact lt_irrefl _)
  · rw [hstack, cons.injEq] at heq
    obtain ⟨rfl, rfl⟩ := heq
    refine ⟨frames callers rest, ?_⟩
    rw [straight, hc, hstack]
    exact (frames_top hchain).trans (by rw [own, hdeferred])

/-- **A step of an execution is one of the uninterrupted run, or is not seen.** -/
theorem Moved.straight (h : Moved P m m') (hrunning : ∀ reason, m'.control ≠ .exited reason) :
    m'.straight = m.straight ∨
      ((∃ top, m.At top) ∧ m.straight.next P = some m'.straight) := by
  cases h with
  | ended hc | «return» hc =>
    left
    simp only [straight, callers, hc]
  | @deferred callers top rest hc hsuspended hstack hchain hpos hfits =>
    left
    simp only [Machine.straight, Control.callers, hc, hstack, frames_top hchain]
    rw [BufferCursor.own, BufferCursor.own, ← frame_advance hfits]
    rfl
  | @pop callers top rest hc hsuspended hstack hchain hdeferred hend =>
    refine .inr ⟨⟨top, at_of_chain hc hstack hchain hdeferred⟩, ?_⟩
    simp only [Machine.straight, Control.callers, hc, hstack, frames_top hchain, Straight.next]
    rw [BufferCursor.own, hdeferred, frame_zero, hend]
    simp
  | @pass callers top rest memory dw e hc hsuspended hstack hchain hpacket hpass hfits =>
    refine .inr ⟨⟨top, at_of_chain hc hstack hchain hpacket.1⟩, ?_⟩
    have hadvance : (top.advance dw).own = (top.frame 0).past dw := by
      rw [frame_past, ← frame_advance hfits, BufferCursor.own, BufferCursor.advance, hpacket.1]
    rw [next_of_atPacket (by rw [hc]; rfl) hstack hchain hpacket]
    simp only [Machine.straight, Control.callers, frames_top hchain, hadvance]
    cases hpass with
    | skip hp => rw [hp, Straight.act, frame_zero]
    | ran hp =>
      rw [hp, Straight.act, frame_zero, if_neg (room hfits)]
    | tested hp =>
      rw [hp, Straight.act, frame_zero, if_neg (room hfits)]
      rfl
    | empty hp =>
      rw [hp, Straight.act, frame_zero, if_pos rfl, if_neg (room hfits)]
  | @block callers top rest dw hc hstack hchain hpacket htest hfits =>
    refine .inr ⟨⟨top, at_of_chain hc hstack hchain hpacket.1⟩, ?_⟩
    rw [next_of_atPacket (by rw [hc]; rfl) hstack hchain hpacket, htest, act, frame_zero,
      if_neg (room hfits)]
    simp only [Machine.straight, Control.callers, hstack, frames_top hchain,
      own_of_atPacket hpacket, frame_zero]
    rfl
  | @enter callers top rest buffer size_dw dw hc hsuspended hstack hchain hpacket henter hsize =>
    refine .inr ⟨⟨top, at_of_chain hc hstack hchain hpacket.1⟩, ?_⟩
    have hchain' := chain_cons hchain hpacket dw
    rw [next_of_atPacket (by rw [hc]; rfl) hstack hchain hpacket, henter, act,
      if_neg hsize, frame_past]
    simp only [Machine.straight, Control.callers, frames_top hchain', frames_chain hchain']
    simp [own, frame]
  | @advance caller callers cursor rest hc hsuspended hstack hchain hfits =>
    left
    simp only [Machine.straight, Control.callers, hc, hstack, frames_chain hchain,
      frames_top hchain.2.2.2.2.2]
    rw [← frame_advance hfits, BufferCursor.own, BufferCursor.advance, hchain.2.2.1]
  | @defer caller callers top cursor above rest hc hsuspended hblocked hfits =>
    left
    have hchain := hblocked.chain
    simp only [Machine.straight, Control.callers, hc, hblocked.stack]
    rw [← cons_append, ← cons_append, frames_above hchain, frames_chain hchain]
    have hbelow := frames_above hchain.2.2.2.2.2
      ((top :: above) ++ [{ cursor with deferred_advance_dw := caller.packet_dw }])
    rw [append_assoc, singleton_append, map_append, append_assoc] at hbelow
    rw [hbelow]
    rfl
  | exit hdeferred hsize hstops => exact absurd rfl (hrunning _)
  | stay hc => exact .inl rfl
/-! ## Progress -/

/-- Nothing has been passed since the call of `Process`: the execution is at a packet, and is not
going to return to a caller with its buffer at its end. -/
structure Untouched (m : Machine S) : Prop where
  top : ∀ top ∈ m.m_buffer_stack.head?, top.AtPacket
  loop : ∀ stop_depth callers, m.control = .loop stop_depth callers → callers ≠ [] →
    stop_depth < m.m_buffer_stack.length
  leave : ∀ callers, m.control = .leave callers → callers ≠ [] → m.m_suspended = true

/-- What `m_made_progress` says. -/
def Progress (m : Machine S) : Prop :=
  (m.m_made_progress = true ∧ m.mark < passed m.log) ∨
    (m.m_made_progress = false ∧ m.mark = passed m.log ∧ Untouched m)

def Live (m : Machine S) : Prop := ∀ reason, m.control ≠ .exited reason

theorem passed_cons (e : Event) (log : List Event) :
    passed (e :: log) = passed log + if e.passes then 1 else 0 := countP_cons

theorem Passes.passes {memory' : S}
    (h : Passes P memory cursor memory' dw e) : e.passes = true := by
  cases h <;> rfl

theorem Progress.mark_le (h : Progress m) : m.mark ≤ passed m.log := by
  rcases h with ⟨_, hlt⟩ | ⟨_, heq, _⟩
  · exact le_of_lt hlt
  · exact le_of_eq heq

theorem Progress.mark_lt (h : Progress m) (htouched : ¬ Untouched m) : m.mark < passed m.log := by
  rcases h with ⟨_, hlt⟩ | ⟨_, _, huntouched⟩
  · exact hlt
  · exact absurd huntouched htouched

theorem Progress.unchanged (h : Progress m) (hflag : m'.m_made_progress = m.m_made_progress)
    (hmark : m'.mark = m.mark) (hpassed : passed m'.log = passed m.log)
    (huntouched : Untouched m → Untouched m') : Progress m' := by
  unfold Progress
  rw [hflag, hmark, hpassed]
  rcases h with hmade | ⟨hfalse, heq, hm⟩
  · exact .inl hmade
  · exact .inr ⟨hfalse, heq, huntouched hm⟩

theorem Moved.progress (h : Moved P m m') (hlive : Live m') (hprogress : Progress m) :
    Progress m' := by
  cases h with
  | ended hc hsuspended hat =>
    refine hprogress.unchanged rfl rfl rfl fun hm => ⟨hm.top, by simp, fun callers' heq hne => ?_⟩
    -- the loop of a caller is not at its end
    obtain rfl : _ = callers' := by simpa using heq
    have hlt := hm.loop _ _ hc hne
    rw [hat.length_eq] at hlt
    exact absurd hlt (lt_irrefl _)
  | deferred hc hsuspended hstack hchain hpos hfits =>
    refine .inl ⟨rfl, hprogress.mark_lt fun hm => ?_⟩
    have htop := (hm.top _ (by rw [hstack]; rfl)).1
    omega
  | pop hc hsuspended hstack hchain hdeferred hend =>
    refine hprogress.unchanged rfl rfl rfl fun hm => ?_
    have htop := (hm.top _ (by rw [hstack]; rfl)).2
    omega
  | pass hc hsuspended hstack hchain hpacket hpass hfits =>
    refine .inl ⟨rfl, ?_⟩
    have hle := hprogress.mark_le
    rw [passed_cons, hpass.passes, if_pos rfl]
    exact lt_succ_of_le hle
  | block hc hstack hchain hpacket htest hfits =>
    exact hprogress.unchanged rfl rfl (passed_cons _ _) fun hm => ⟨hm.top, by simp, by simp⟩
  | enter hc hsuspended hstack hchain hpacket henter hsize =>
    refine hprogress.unchanged rfl rfl (passed_cons _ _) fun hm => ⟨?_, ?_, by simp⟩
    · intro top htop
      obtain rfl : _ = top := by simpa using htop
      exact ⟨rfl, pos_of_ne_zero hsize⟩
    · intro stop_depth callers' heq _
      obtain ⟨rfl, -⟩ : _ = stop_depth ∧ _ = callers' := by simpa using heq
      simp
  | advance hc hsuspended hstack hchain hfits =>
    refine .inl ⟨rfl, hprogress.mark_lt fun hm => ?_⟩
    have hon := hm.leave _ hc (by simp)
    rw [hsuspended] at hon
    simp at hon
  | defer hc hsuspended hblocked hfits =>
    refine hprogress.unchanged rfl rfl rfl fun hm => ⟨?_, by simp, fun _ _ _ => hsuspended⟩
    intro top htop
    obtain rfl : _ = top := by simpa using htop
    exact hblocked.at_packet
  | «return» hc =>
    exact hprogress.unchanged rfl rfl rfl fun hm => ⟨hm.top, by simp, by simp⟩
  | exit hdeferred hsize hstops => exact absurd rfl (hlive _)
  | stay hc => exact hprogress

/-! ## Steps that are not seen -/

/-- The thread is not in a call of `Process`. -/
def Ended (m : Machine S) : Prop := m.control = .returned ∨ ∃ reason, m.control = .exited reason

/-- It bounds the steps before the next event. -/
def rank (m : Machine S) : ℕ :=
  let stack := 4 * m.m_buffer_stack.length +
    m.m_buffer_stack.countP fun c => 0 < c.deferred_advance_dw
  match m.control with
  | .loop _ callers => stack + 2 * callers.length + 2
  | .leave callers => stack + 2 * callers.length + 1
  | .returned => 0
  | .exited _ => 0

theorem Moved.rank (h : Moved P m m') :
    Ended m' ∨ m.log.length < m'.log.length ∨ rank m' < rank m := by
  cases h with
  | ended hc hsuspended hat =>
    right; right
    simp only [rank, hc]
    omega
  | deferred hc hsuspended hstack hchain hpos hfits =>
    right; right
    simp only [rank, hc, hstack, countP_cons, length_cons]
    simp [hpos]
  | pop hc hsuspended hstack hchain hdeferred hend =>
    right; right
    simp only [rank, hc, hstack, countP_cons, length_cons]
    omega
  | pass | block | enter => exact .inr (.inl (by simp))
  | advance hc hsuspended hstack hchain hfits =>
    right; right
    simp only [Pm4.rank, hc, hstack, countP_cons, length_cons, BufferCursor.advance]
    omega
  | defer hc hsuspended hblocked hfits =>
    right; right
    -- one caller less, one deferred advance more
    have hzero := hblocked.chain.2.2.1
    have hpos := hblocked.chain.2.2.2.1
    simp only [rank, hc, hblocked.stack, countP_cons, length_cons,
      countP_append, length_append, hzero, hpos]
    simp only [lt_irrefl, decide_false, decide_true, if_true, Bool.false_eq_true, if_false]
    omega
  | «return» hc => exact .inl (.inl rfl)
  | exit hdeferred hsize hstops => exact .inl (.inr ⟨_, rfl⟩)
  | stay hc => exact .inl hc

/-! ## Whole runs -/

/-- What holds of an execution in every state. -/
structure Inv (m : Machine S) : Prop where
  shape : Shape m
  progress : Live m → Progress m

theorem step_live (hlive : Live (m.step P)) : Live m := by
  intro reason hc
  have hstay : m.step P = m := by rw [Machine.step, hc]
  rw [hstay] at hlive
  exact hlive reason hc

theorem step_inv (h : Inv m) : Inv (m.step P) :=
  have hmoved := step_moved (P := P) h.shape
  ⟨hmoved.shape h.shape, fun hlive => hmoved.progress hlive (h.progress (step_live hlive))⟩

theorem change_inv (h : Inv m) (memory : S) : Inv { m with memory := memory } :=
  ⟨h.shape, fun hlive => (h.progress hlive).unchanged rfl rfl rfl fun hm =>
    ⟨hm.top, hm.loop, hm.leave⟩⟩

theorem process_inv (m : Machine S) (hstack : (m.Process buffer size_dw).m_buffer_stack = stack)
    (htop : ∀ top ∈ stack.head?, top.AtPacket) (hwaiting : ∀ c ∈ stack.tail, c.Waiting) :
    Inv (m.Process buffer size_dw) := by
  constructor
  · refine ⟨rfl, rfl, ?_⟩
    rw [hstack]
    cases stack with
    | nil => exact .inl ⟨chain_nil.mpr hwaiting, fun _ => rfl⟩
    | cons top above =>
      refine .inr ⟨top, above, rfl, ?_, hwaiting⟩
      rw [(htop top rfl).1]
      exact zero_le _
  · intro _
    refine .inr ⟨rfl, rfl, ⟨by rwa [hstack], ?_, fun callers hc => nomatch hc⟩⟩
    intro stop_depth callers hc hne
    obtain ⟨-, rfl⟩ : 0 = stop_depth ∧ [] = callers := by simpa [Machine.Process] using hc
    exact absurd rfl hne

theorem process_stack (hstack : m.m_buffer_stack = stack) (hne : stack ≠ []) (buffer size_dw : ℕ) :
    (m.Process buffer size_dw).m_buffer_stack = stack := by
  rw [Machine.Process, hstack]
  exact if_neg fun h => hne h.1

theorem start_inv (memory : S) (buffer size_dw : ℕ) : Inv (start memory buffer size_dw) := by
  refine process_inv _ rfl ?_ ?_ <;>
  · simp only [Machine.Process]
    split
    · next h => simp [BufferCursor.AtPacket, pos_of_ne_zero h.2]
    · simp

theorem start_straight (memory : S) (buffer size_dw : ℕ) :
    (Machine.start memory buffer size_dw).straight = Straight.start memory buffer size_dw := by
  by_cases hsize : size_dw = 0 <;>
    simp [Machine.start, Machine.Process, Machine.straight, Straight.start, Control.callers, frames,
      frame, hsize]

theorem apply_inv (op : Op S) (h : Inv m) : Inv (m.apply P buffer size_dw op) := by
  cases op with
  | step => exact step_inv h
  | change memory => exact change_inv h memory
  | process =>
    simp only [apply]
    split
    · next hready =>
      have hshape := h.shape
      simp only [Shape, hready.1] at hshape
      obtain ⟨top, above, hblocked⟩ := hshape.resolve_left hready.2
      have hstack := hblocked.stack
      rw [append_nil] at hstack
      refine process_inv m (process_stack hstack (by simp) buffer size_dw) ?_ hblocked.waiting
      intro c hc
      obtain rfl : top = c := by simpa using hc
      exact hblocked.at_packet
    · exact h

/-- **An execution follows the uninterrupted run.** -/
theorem follows (P : Processor S) (buffer size_dw : ℕ) :
    Follows (fun op m => m.apply P buffer size_dw op) Op.changed (Straight.Moves P) straight Inv
      Live where
  keep op _ h := apply_inv op h
  seen op m h hlive := by
    cases op with
    | step =>
      refine ⟨step_live hlive, ?_⟩
      rcases (step_moved h.shape).straight hlive with heq | hnext
      · exact .inl ⟨rfl, heq⟩
      · exact .inr hnext.2
    | change memory => exact ⟨hlive, .inr rfl⟩
    | process =>
      simp only [apply] at hlive ⊢
      split
      · next hready =>
        refine ⟨fun reason hc => by simp [hready.1] at hc, .inl ⟨rfl, ?_⟩⟩
        rw [straight, process_stack rfl hready.2, straight, hready.1]
        rfl
      · next hready =>
        rw [if_neg hready] at hlive
        exact ⟨hlive, .inl ⟨rfl, rfl⟩⟩

theorem round_tested (hsuspended : m.m_suspended = false) (hstack : m.m_buffer_stack = top :: rest)
    (htest : P.packet m.memory top.next_packet top.remaining_dw top.total_dw =
      .handled (.tested ok dw)) (hfits : dw + 1 ≤ top.remaining_dw) :
    (m.round P top rest stop_depth callers).log = .tested top.next_packet ok :: m.log ∧
      (m.round P top rest stop_depth callers).m_buffer_stack =
        (if ok then top.advance (dw + 1) else top) :: rest := by
  have hroom : ¬ top.remaining_dw < dw + 1 := by omega
  simp only [Machine.round, htest]
  set n : Machine S := { m with m_suspended := m.m_suspended || !ok }.note
    (.tested top.next_packet ok) with hn
  have hflag : n.m_suspended = !ok := by simp [hn, note, hsuspended]
  cases ok with
  | true =>
    rw [handled_advance (m := n) callers hroom hflag hstack rfl]
    exact ⟨rfl, rfl⟩
  | false =>
    rw [handled_suspended (m := n) callers hroom hflag (by simp [hn, note, hstack])]
    exact ⟨rfl, hstack⟩

/-- A step at a packet is a round of the loop. -/
theorem step_round (hc : m.control = .loop 0 callers) (hstack : m.m_buffer_stack = top :: rest)
    (hpacket : top.AtPacket) : m.step P = m.round P top rest 0 callers := by
  unfold Machine.step Machine.ProcessPm4
  simp only [hc, hstack]
  rw [if_neg (by simp), if_neg (not_not.mpr hpacket.1), if_neg hpacket.2.ne']

theorem retest (hstack : m.m_buffer_stack = top :: above) (hpacket : top.AtPacket)
    (htest : P.packet memory top.next_packet top.remaining_dw top.total_dw =
      .handled (.tested ok dw)) (hfits : dw + 1 ≤ top.remaining_dw) :
    let next := ({ m with memory := memory }.Process buffer size_dw).step P
    next.log = .tested top.next_packet ok :: m.log ∧
      next.m_buffer_stack = (if ok then top.advance (dw + 1) else top) :: above := by
  intro next
  set called : Machine S := { m with memory := memory }.Process buffer size_dw
  have hon : called.m_buffer_stack = top :: above := process_stack hstack (by simp) buffer size_dw
  have hround : next = called.round P top above 0 [] := step_round rfl hon hpacket
  rw [hround]
  exact round_tested rfl hon htest hfits

theorem Moved.stops (h : Moved P m m') (hlive : Live m) (hdead : ¬ Live m') : m.Stops P := by
  cases h with
  | exit hdeferred hsize hstops => exact hstops
  | stay hc => exact absurd hlive hdead
  | deferred hc | pop hc => exact absurd (fun reason heq => nomatch hc.symm.trans heq) hdead
  | _ => exact absurd nofun hdead

/-- What holds of an execution after any steps: `first` is where the submission begins, and
`changes` are the changes of the state from elsewhere. -/
structure Resumes (P : Processor S) (buffer size_dw : ℕ) (first : Straight S) (changes : List S)
    (m : Machine S) : Prop where
  /-- The packets so far are those of the uninterrupted run with these changes, and so is the place
  to go on at. -/
  run : Live m → Takes (Straight.Moves P) changes first m.straight
  /-- A step stops the process only where the uninterrupted run stops it. -/
  exits : Live m → ¬ Live (m.step P) → m.Stops P
  /-- The cursors never fail a check. -/
  bookkeeping : m.control ≠ .exited .deferredAdvance ∧ m.control ≠ .exited .stackSize
  /-- `m_made_progress` says whether this call of `Process` has gone past a packet. -/
  progress : Live m → (m.m_made_progress = true ↔ m.mark < passed m.log)
  /-- Where `Process` has come back before the end, a test has failed. The next call tests the
  packet again, and goes past it when the test succeeds. -/
  waits : m.control = .returned → m.m_buffer_stack ≠ [] →
    ∃ top above, m.m_buffer_stack = top :: above ∧
      m.log.head? = some (.tested top.next_packet false) ∧
      ∀ (memory : S) (ok : Bool) (dw : ℕ),
        P.packet memory top.next_packet top.remaining_dw top.total_dw =
          .handled (.tested ok dw) → dw + 1 ≤ top.remaining_dw →
        let next := ({ m with memory := memory }.Process buffer size_dw).step P
        next.log = .tested top.next_packet ok :: m.log ∧
          next.m_buffer_stack = (if ok then top.advance (dw + 1) else top) :: above
  /-- A call of `Process` comes to another packet, or to its end. -/
  responds : ∃ n ≤ rank m + 1, Ended ((·.step P)^[n] m) ∨
    m.log.length < ((·.step P)^[n] m).log.length

theorem Moved.log_le (h : Moved P m m') (hrunning : ¬ Ended m') : m.log.length ≤ m'.log.length := by
  cases h with
  | exit hdeferred hsize hstops => exact absurd (.inr ⟨_, rfl⟩) hrunning
  | _ => simp

theorem step_of_ended (h : Ended m) : m.step P = m := by
  rcases h with hc | ⟨reason, hc⟩ <;> rw [Machine.step, hc]

theorem inv_responds (P : Processor S) (h : Inv m) : ∃ n ≤ rank m + 1,
    Ended ((·.step P)^[n] m) ∨ m.log.length < ((·.step P)^[n] m).log.length := by
  -- up to an event or the end, the log is as it was
  refine exists_done (fun n => Inv n ∧ (Ended n ∨ m.log.length ≤ n.log.length))
    (fun n => Ended n ∨ m.log.length < n.log.length) rank ?_ ?_ ⟨h, .inr le_rfl⟩
  · rintro n ⟨hinv, hlog⟩
    refine ⟨step_inv hinv, ?_⟩
    by_cases hended : Ended (n.step P)
    · exact .inl hended
    have hrunning : ¬ Ended n := fun hn => hended ((step_of_ended (P := P) hn).symm ▸ hn)
    exact .inr ((hlog.resolve_left hrunning).trans ((step_moved hinv.shape).log_le hended))
  · rintro n ⟨hinv, hlog⟩ hdone
    rw [not_or] at hdone
    have hle := hlog.resolve_left hdone.1
    rcases (step_moved (P := P) hinv.shape).rank with hended | hlt | hlt
    · exact .inl (.inl hended)
    · exact .inl (.inr (by omega))
    · exact .inr hlt

/-- **An execution that is suspended and resumed does what an uninterrupted run does.** -/
theorem pm4_resumes (P : Processor S) (memory : S) (buffer size_dw : ℕ) (ops : List (Op S)) :
    Resumes P buffer size_dw (Straight.start memory buffer size_dw) (ops.filterMap Op.changed)
      (Lib.after (fun op m => m.apply P buffer size_dw op) (Machine.start memory buffer size_dw)
        ops) := by
  have hstart := start_inv memory buffer size_dw
  have hfollows := follows P buffer size_dw
  have hinv := hfollows.after ops hstart
  have hrun := hfollows.run ops hstart
  rw [start_straight] at hrun
  generalize Lib.after (fun op m => Machine.apply P buffer size_dw op m)
    (.start memory buffer size_dw) ops = m at hinv hrun
  refine ⟨fun hlive => (hrun hlive).2, (step_moved hinv.shape).stops, ?_, fun hlive => ?_,
    fun hc hne => ?_, inv_responds P hinv⟩
  · have hshape := hinv.shape
    constructor <;> intro hc <;> simp [Shape, hc] at hshape
  · rcases hinv.progress hlive with ⟨htrue, hlt⟩ | ⟨hfalse, heq, _⟩
    · exact iff_of_true htrue hlt
    · exact iff_of_false (by simp [hfalse]) (by omega)
  · have hshape := hinv.shape
    simp only [Shape, hc] at hshape
    obtain ⟨top, above, hblocked⟩ := hshape.resolve_left hne
    have hstack := hblocked.stack
    rw [List.append_nil] at hstack
    exact ⟨top, above, hstack, hblocked.tested, fun memory ok dw htest hfits =>
      retest hstack hblocked.at_packet htest hfits⟩

end MagnusPS5.Graphics.Pm4
