/-
PM4 packets as `ProcessPm4` reads them (`graphicsRun.cpp`), with the handlers that decide where
the stream goes on: `CpOpCondExec`, `CpOpBranch` and `CpOpIndirectBuffer` (`pm4Handlers.cpp`).

The other handlers are a parameter. Such a handler stops the process, changes the state and
comes back, or tests the state and suspends the execution where the test fails.
-/
import Mathlib.Data.Nat.Notation
import Mathlib.Tactic.SplitIfs

namespace MagnusPS5.Graphics.Pm4

def KYTY_PM4_LEN (cmd_id : BitVec 32) : ℕ := ((cmd_id >>> 16) &&& 0x3fff#32).toNat + 2

def IT_COND_EXEC : BitVec 32 := 0x22#32

def IT_INDIRECT_BUFFER : BitVec 32 := 0x3F#32

/-- What a handler does, with the number of dwords that it returns. -/
inductive Answer (S : Type*)
  | exit
  /-- The state is `memory` now. -/
  | ran (memory : S) (dw : ℕ)
  /-- The execution is suspended unless `ok`. -/
  | tested (ok : Bool) (dw : ℕ)
  /-- `ProcessIndirectBuffer` is called in the handler. -/
  | entered (buffer size_dw dw : ℕ)

/-- A command processor with the memory it reads: `word` is the dword at an address. -/
structure Processor (S : Type*) where
  word : S → ℕ → BitVec 32
  ShouldSkipPredicatedPackets : S → Bool
  /-- The handlers of the other opcodes: state, `cmd_id`, address of the payload, `dw` and
  `num_dw`. -/
  handlers : BitVec 32 → Option (S → BitVec 32 → ℕ → ℕ → ℕ → Answer S)

variable {S : Type*} (P : Processor S)

namespace Processor

/-- `buffer[i]`. -/
def dword (s : S) (buffer i : ℕ) : BitVec 32 := P.word s (buffer + 4 * i)

/-- The 64 bits of two dwords, the low one first. -/
def qword (low high : BitVec 32) : BitVec 64 := high ++ low

/-- `TestWaitRegMemValue`; none for an unknown function. -/
def TestWaitRegMemValue (value ref mask : BitVec 64) : ℕ → Option Bool
  | 0 => some true
  | 1 => some ((value &&& mask) < ref)
  | 2 => some ((value &&& mask) ≤ ref)
  | 3 => some ((value &&& mask) = ref)
  | 4 => some ((value &&& mask) ≠ ref)
  | 5 => some (ref ≤ (value &&& mask))
  | 6 => some (ref < (value &&& mask))
  | _ => none

def CpOpCondExec (s : S) (cmd_id : BitVec 32) (buffer dw _num_dw : ℕ) : Answer S :=
  let payload_dw := KYTY_PM4_LEN cmd_id - 1
  if payload_dw < 4 then .exit
  else
    let addr := qword (P.dword s buffer 0 &&& 0xfffffffc#32) (P.dword s buffer 1)
    let control := P.dword s buffer 0 &&& 0x3#32
    let exec_count := (P.dword s buffer 3 &&& 0x3fff#32).toNat
    if control ≠ 0 then .exit
    else if P.dword s buffer 2 ≠ 0 then .exit
    else if addr = 0 then .exit
    else if dw ≤ payload_dw + exec_count then .exit
    else if P.word s addr.toNat = 0 then .ran s (payload_dw + exec_count)
    else .ran s payload_dw

def CpOpBranch (s : S) (cmd_id : BitVec 32) (buffer _dw _num_dw : ℕ) : Answer S :=
  let payload_dw := KYTY_PM4_LEN cmd_id - 1
  if payload_dw ≠ 13 then .exit
  else
    let compare_addr := qword (P.dword s buffer 1 &&& 0xfffffff8#32) (P.dword s buffer 2)
    let mask := qword (P.dword s buffer 3) (P.dword s buffer 4)
    let reference := qword (P.dword s buffer 5) (P.dword s buffer 6)
    let mode := P.dword s buffer 0 &&& 0x3#32
    let function := ((P.dword s buffer 0 >>> 8) &&& 0x7#32).toNat
    let then_buffer := qword (P.dword s buffer 7 &&& 0xfffffffc#32) (P.dword s buffer 8)
    let then_num_dw := (P.dword s buffer 9 &&& 0xfffff#32).toNat
    let else_buffer := qword (P.dword s buffer 10 &&& 0xfffffffc#32) (P.dword s buffer 11)
    let else_num_dw := (P.dword s buffer 12 &&& 0xfffff#32).toNat
    if compare_addr = 0 then .exit
    else if mode ≠ 1 ∧ mode ≠ 2 then .exit
    else if 6 < function then .exit
    else if then_buffer = 0 ∨ then_num_dw = 0 then .exit
    else
      let compared := qword (P.dword s compare_addr.toNat 0) (P.dword s compare_addr.toNat 1)
      match TestWaitRegMemValue compared reference mask function with
      | none => .exit
      | some true => .entered then_buffer.toNat then_num_dw payload_dw
      | some false =>
        if mode = 2 ∧ else_num_dw ≠ 0 then
          if else_buffer = 0 then .exit else .entered else_buffer.toNat else_num_dw payload_dw
        else .ran s payload_dw

def CpOpIndirectBuffer (s : S) (cmd_id : BitVec 32) (buffer dw num_dw : ℕ) : Answer S :=
  if KYTY_PM4_LEN cmd_id = 14 then P.CpOpBranch s cmd_id buffer dw num_dw
  else if KYTY_PM4_LEN cmd_id ≠ 4 then .exit
  else
    let control := P.dword s buffer 2
    let indirect_buffer := qword (P.dword s buffer 0) (P.dword s buffer 1)
    let indirect_num_dw := (control &&& 0xfffff#32).toNat
    if indirect_num_dw = 0 then .ran s 3
    else if indirect_buffer = 0 then .exit
    else .entered indirect_buffer.toNat indirect_num_dw 3

def g_cp_op_func (opcode : BitVec 32) : Option (S → BitVec 32 → ℕ → ℕ → ℕ → Answer S) :=
  if opcode = IT_COND_EXEC then some P.CpOpCondExec
  else if opcode = IT_INDIRECT_BUFFER then some P.CpOpIndirectBuffer
  else P.handlers opcode

/-- What is done with a packet: it is passed over, or given to its handler. -/
inductive Outcome (S : Type*)
  | skip (dw : ℕ)
  | handled (answer : Answer S)

/-- What a round of `ProcessPm4` does at the packet it has come to. -/
def packet (s : S) (packet remaining_dw total_dw : ℕ) : Outcome S :=
  let packet_header := P.word s packet
  let opcode := (packet_header >>> 8) &&& 0xff#32
  if total_dw < remaining_dw then .handled .exit
  else if packet_header = 0x80000000#32 then .skip 1
  else if remaining_dw < 2 then .handled .exit
  else if packet_header &&& 1#32 ≠ 0 ∧ P.ShouldSkipPredicatedPackets s then
    let packet_dw := KYTY_PM4_LEN packet_header
    if packet_dw = 0 ∨ remaining_dw < packet_dw then .handled .exit else .skip packet_dw
  else
    match P.g_cp_op_func opcode with
    | none => .handled .exit
    | some handler =>
      .handled (handler s (packet_header &&& ~~~1#32) (packet + 4) remaining_dw total_dw)

theorem packet_skip {s : S} {p remaining_dw total_dw dw : ℕ} (hpos : 0 < remaining_dw)
    (h : P.packet s p remaining_dw total_dw = .skip dw) : 0 < dw ∧ dw ≤ remaining_dw := by
  dsimp only [packet] at h
  split_ifs at h with _ hfiller _ _ hfits
  · rw [Outcome.skip.injEq] at h
    omega
  · rw [Outcome.skip.injEq] at h
    omega
  · split at h <;> simp at h

end Processor

end MagnusPS5.Graphics.Pm4
