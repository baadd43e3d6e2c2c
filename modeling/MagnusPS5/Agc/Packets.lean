/-
Packets without registers, by what is in them: the values in their fields, whichever bits these are
in, and what the command processor does with them.

Dwords encode a packet if its handler reads these values in them. That what `ProcessPm4` does at
such dwords is what is in the packet, is proved once for each kind of packet, with no look at the
functions that write them.
-/
import MagnusPS5.Agc.Builders
import MagnusPS5.Graphics.Pm4Requests
import MagnusPS5.Graphics.Pm4Framing
import MagnusPS5.Lib.BitFields

namespace MagnusPS5.Agc

open Graphics.Pm4 Lib BitVec
open CommandProcessor (asks)

/-- What `CpOpBranch` reads. -/
structure Branch where
  compare_addr : BitVec 64
  mask : BitVec 64
  reference : BitVec 64
  mode : BitVec 32
  function : ℕ
  then_buffer : BitVec 64
  then_num_dw : ℕ
  else_buffer : BitVec 64
  else_num_dw : ℕ
  deriving DecidableEq

def readBranch (buffer : ℕ → BitVec 32) : Branch where
  compare_addr := buffer 2 ++ (buffer 1 &&& 0xfffffff8#32)
  mask := buffer 4 ++ buffer 3
  reference := buffer 6 ++ buffer 5
  mode := buffer 0 &&& 0x3#32
  function := ((buffer 0 >>> 8) &&& 0x7#32).toNat
  then_buffer := buffer 8 ++ (buffer 7 &&& 0xfffffffc#32)
  then_num_dw := (buffer 9 &&& 0xfffff#32).toNat
  else_buffer := buffer 11 ++ (buffer 10 &&& 0xfffffffc#32)
  else_num_dw := (buffer 12 &&& 0xfffff#32).toNat

/-- What is in a packet. -/
inductive Packet
  | nop (size : ℕ)
  | dispatch (thread_group_x thread_group_y thread_group_z mode : BitVec 32)
  | dispatchIndirect (data_offset mode : BitVec 32)
  | dispatchIndirectAt (args_addr : BitVec 64) (mode : BitVec 32)
  | branch (args : Branch)
  | jump (target : BitVec 64) (num_dw : ℕ)
  | predication (args : Predication)
  | dma (args : DmaData)
  | copy (args : CopyData)
  | write (dst : BitVec 64) (data : List (BitVec 32)) (control : WriteControl)
  | rewind (valid : Bool)
  | contextState (operation : ContextStateOperation) (size : ℕ)
  deriving DecidableEq

namespace Packet

/-- The dwords of a packet. -/
def size : Packet → ℕ
  | nop size => size
  | dispatch .. => 5
  | dispatchIndirect .. => 3
  | dispatchIndirectAt .. => 4
  | branch _ => 14
  | jump .. => 4
  | predication _ => 4
  | dma _ => 7
  | copy _ => 6
  | write _ data _ => 4 + data.length
  | rewind _ => 2
  | contextState _ size => size

def opcode : Packet → BitVec 32
  | nop _ => IT_NOP
  | dispatch .. => IT_DISPATCH_DIRECT
  | dispatchIndirect .. => IT_DISPATCH_INDIRECT
  | dispatchIndirectAt .. => IT_DISPATCH_INDIRECT
  | branch _ => IT_INDIRECT_BUFFER
  | jump .. => IT_INDIRECT_BUFFER
  | predication _ => IT_SET_PREDICATION
  | dma _ => IT_DMA_DATA
  | copy _ => IT_COPY_DATA
  | write .. => IT_WRITE_DATA
  | rewind _ => IT_REWIND
  | contextState .. => IT_NOP

/-- The custom code. -/
def code : Packet → BitVec 32
  | contextState .. => R_CONTEXT_STATE
  | _ => 0

def header (p : Packet) : BitVec 32 := KYTY_PM4 (BitVec.ofNat 32 p.size) p.opcode p.code

/-- The values of a packet are in the dwords after its header. -/
def Fields (payload : List (BitVec 32)) : Packet → Prop
  | nop _ => payload.getD 0 0 &&& 0xffff0000#32 ≠ 0x68750000#32
  | dispatch x y z mode => payload = [x, y, z, mode]
  | dispatchIndirect data_offset mode => payload = [data_offset, mode]
  | dispatchIndirectAt args_addr mode => payload = [low args_addr, high args_addr, mode]
  | branch args => readBranch (payload.getD · 0) = args
  | jump target num_dw =>
    payload.getD 1 0 ++ payload.getD 0 0 = target ∧ (payload.getD 2 0 &&& 0xfffff#32).toNat = num_dw
  | predication args => readPredication 3 (payload.getD · 0) = args
  | dma args => readDmaData (payload.getD · 0) = args
  | copy args => readCopyData (payload.getD · 0) = args
  | write dst data control =>
    payload.getD 2 0 ++ payload.getD 1 0 = dst ∧ payload.drop 3 = data ∧
      readWriteControl (payload.getD 0 0) = control
  | rewind valid => payload = [if valid then 0x80000000#32 else 0#32]
  | contextState operation _ => payload.getD 0 0 = operation.word

/-- The sizes that a packet can have. -/
def Sized : Packet → Prop
  | contextState _ size => size = 3 ∨ size = 5
  | p => 2 ≤ p.size ∧ p.size ≤ 0x4001

/-! ## What the command processor does with a packet -/

section Answers

variable {S : Type*} (cp : CommandProcessor S) (execute : S → Request → Option S) (s : S)

/-- A branch goes to one of two buffers, or on. -/
def branchAnswer (b : Branch) : Answer S :=
  if b.compare_addr = 0 then .exit
  else if b.mode ≠ 1 ∧ b.mode ≠ 2 then .exit
  else if 6 < b.function then .exit
  else if b.then_buffer = 0 ∨ b.then_num_dw = 0 then .exit
  else
    let compared := cp.qword s b.compare_addr.toNat 0
    match Processor.TestWaitRegMemValue compared b.reference b.mask b.function with
    | none => .exit
    | some true => .entered b.then_buffer.toNat b.then_num_dw 13
    | some false =>
      if b.mode = 2 ∧ b.else_num_dw ≠ 0 then
        if b.else_buffer = 0 then .exit else .entered b.else_buffer.toNat b.else_num_dw 13
      else .ran s 13

/-- The answer to a packet; the process stops at what is not supported. -/
def answer : Packet → Answer S
  | nop size => .ran s (size - 1)
  | dispatch x y z mode => asks execute s [.DispatchDirect x y z mode 0] 4
  | dispatchIndirect data_offset mode =>
    asks execute s [.DispatchIndirect data_offset mode] 2
  | dispatchIndirectAt args_addr mode =>
    if args_addr = 0 then .exit
    else
      asks execute s
        [.DispatchDirect (cp.dword s args_addr.toNat 0) (cp.dword s args_addr.toNat 1)
          (cp.dword s args_addr.toNat 2) mode args_addr] 3
  | branch args => branchAnswer cp s args
  | jump target num_dw =>
    if num_dw = 0 then .ran s 3
    else if target = 0 then .exit
    else .entered target.toNat num_dw 3
  | predication args => asks execute s [.SetPredication args 0] 3
  | dma args => asks execute s [.DmaData args] 6
  | copy args =>
    if args.taken then asks execute s [args.request] 5 else .exit
  | write dst data control =>
    asks execute s
      [.WriteData dst data (BitVec.ofNat 32 data.length) control] (3 + data.length)
  | rewind valid => .tested valid 1
  | contextState operation size =>
    asks execute s [.ApplyContextStateOperation operation] (size - 1)

end Answers

end Packet

/-- Dwords that are a packet, with the predicate bit or without it. -/
structure Encodes (dwords : List (BitVec 32)) (predicated : Bool) (p : Packet) : Prop where
  sized : p.Sized
  length : dwords.length = p.size
  header : dwords.getD 0 0 = p.header ||| (if predicated then 1#32 else 0#32)
  fields : p.Fields dwords.tail

/-! ## Dwords of 64 bits -/

theorem low_eq (value : BitVec 64) : low value = value.setWidth 32 := by
  apply eq_of_toNat_eq
  rw [low, toNat_setWidth, toNat_setWidth, toNat_and]
  change (value.toNat &&& (2 ^ 32 - 1)) % 2 ^ 32 = _
  rw [Nat.and_two_pow_sub_one_eq_mod, Nat.mod_mod]

theorem high_eq (value : BitVec 64) : high value = (value >>> 32).setWidth 32 := low_eq _

theorem high_low (value : BitVec 64) : high value ++ low value = value := by
  rw [low_eq, high_eq]
  ext i hi
  rw [getElem_append]
  split
  · simp [getLsbD_eq_getElem (show i < 64 by omega)]
  · next hhigh =>
    have hback : 32 + (i - 32) = i := by omega
    simp [hback, getLsbD_eq_getElem (show i < 64 by omega)]

theorem split_eq_zero {value : BitVec 64} : low value = 0 ∧ high value = 0 ↔ value = 0 := by
  constructor
  · rintro ⟨hlow, hhigh⟩
    rw [← high_low value, hlow, hhigh]
    rfl
  · rintro rfl
    exact ⟨rfl, rfl⟩

/-! ## Headers -/

section Headers

variable (len op r : BitVec 32)

theorem KYTY_PM4_opcode : opcodeOf (KYTY_PM4 len op r) = op &&& 0xff#32 := by
  rw [opcodeOf, KYTY_PM4, take_or, take_or, take_or, take_apart _ (by decide),
    take_same _ (by decide), take_apart _ (by decide)]
  simp

theorem KYTY_PM4_code : KYTY_PM4_R (KYTY_PM4 len op r) = r &&& 0x3f#32 := by
  rw [KYTY_PM4_R, KYTY_PM4, take_or, take_or, take_or, take_apart _ (by decide),
    take_apart _ (by decide), take_same _ (by decide)]
  simp

theorem KYTY_PM4_reg_num :
    (KYTY_PM4 len op r >>> 16) &&& 0x3fff#32 =
      ((len.setWidth 16).setWidth 32 - 2#32) &&& 0x3fff#32 := by
  rw [KYTY_PM4, take_or, take_or, take_or, take_same _ (by decide), take_apart _ (by decide),
    take_apart _ (by decide)]
  simp

theorem KYTY_PM4_bit : KYTY_PM4 len op r &&& 1#32 = 0#32 := by
  rw [KYTY_PM4, and_or_distrib_right, and_or_distrib_right,
    and_or_distrib_right, low_apart _ (by decide), low_apart _ (by decide),
    low_apart _ (by decide)]
  rfl

variable {header : BitVec 32} (h : header &&& 1#32 = 0#32) (predicated : Bool)

include h

theorem unpredicated : (header ||| (if predicated then 1#32 else 0#32)) &&& ~~~1#32 = header := by
  have hrest : header &&& ~~~1#32 = header := and_not_of_and_eq_zero h
  rw [and_or_distrib_right, hrest]
  cases predicated <;> exact or_zero

theorem predicate_bit :
    (header ||| (if predicated then 1#32 else 0#32)) &&& 1#32 =
      if predicated then 1#32 else 0#32 := by
  rw [and_or_distrib_right, h, zero_or]
  cases predicated <;> rfl

end Headers

theorem KYTY_PM4_size {size : ℕ} (op r : BitVec 32) (htwo : 2 ≤ size) (hmax : size ≤ 0x4001) :
    KYTY_PM4_LEN (KYTY_PM4 (.ofNat 32 size) op r) = size := by
  have hlen : ((BitVec.ofNat 32 size).setWidth 16).setWidth 32 - 2#32 = .ofNat 32 (size - 2) := by
    apply eq_of_toNat_eq
    simp only [toNat_sub, toNat_setWidth, toNat_ofNat]
    omega
  have hlow : (BitVec.ofNat 32 (size - 2)).toNat = size - 2 := by
    rw [toNat_ofNat]
    omega
  have hmask : .ofNat 32 (size - 2) &&& 0x3fff#32 = .ofNat 32 (size - 2) :=
    and_low (n := 14) (by omega) (by decide)
  rw [KYTY_PM4_LEN, KYTY_PM4_reg_num, hlen, hmask, hlow]
  omega

namespace Packet

theorem Sized.two_le {p : Packet} (h : p.Sized) : 2 ≤ p.size ∧ p.size ≤ 0x4001 := by
  cases p with
  | contextState operation size =>
    have hsize : size = 3 ∨ size = 5 := h
    dsimp only [Packet.size]
    omega
  | _ => exact h

theorem header_bit (p : Packet) : p.header &&& 1#32 = 0#32 := KYTY_PM4_bit _ _ _

theorem header_opcode (p : Packet) : opcodeOf p.header = p.opcode := by
  rw [header, KYTY_PM4_opcode]
  cases p <;> dsimp only [opcode] <;> decide

theorem header_code (p : Packet) : KYTY_PM4_R p.header = p.code := by
  rw [header, KYTY_PM4_code]
  cases p <;> dsimp only [code] <;> decide

theorem header_size {p : Packet} (h : p.Sized) : KYTY_PM4_LEN p.header = p.size :=
  KYTY_PM4_size _ _ h.two_le.1 h.two_le.2

end Packet

end MagnusPS5.Agc
