/-
What the functions that write packets write, as packets: the values that the packets have are the
arguments of the functions, as far as these fit.
-/
import MagnusPS5.Agc.Packets

namespace MagnusPS5.Agc

open Graphics.Pm4 Lib

/-- A call of a function that writes packets. -/
inductive Call
  | AgcCbNop (size_in_dwords : BitVec 32)
  | AgcCbDispatch (thread_group_x thread_group_y thread_group_z modifier : BitVec 32)
  | AgcCbBranch (args : BranchArgs)
  | AgcAcbDmaData (args : DmaDataArgs)
  | AgcDcbDmaData (engine : BitVec 8) (args : DmaDataArgs) (block_engine : BitVec 8)
  | AgcAcbCopyData (args : CopyDataArgs)
  | AgcDcbCopyData (args : CopyDataArgs)
  | AgcAcbDispatchIndirect (indirect_args : BitVec 64) (modifier : BitVec 32)
  | AgcDcbDispatchIndirect (data_offset_in_bytes flags : BitVec 32)
  | AgcAcbWriteData (args : WriteDataArgs)
  | AgcDcbWriteData (args : WriteDataArgs)
  | AgcDcbJump (mode cache_policy : BitVec 8) (target : BitVec 64) (size_in_dwords : BitVec 32)
  | AgcDcbRewind (initial_state : BitVec 32)
  | AgcDcbSetPredication (condition op wait_op : BitVec 8) (address : BitVec 64)
      (count_in_dwords : BitVec 32)
  | AgcDcbContextStateOp (operation : BitVec 32)

namespace Call

section Build

variable (grow : CommandBuffer → BitVec 32 → Option CommandBuffer) (buf : CommandBuffer)

/-- What is written at one place. -/
def single (written : Option (Segment × CommandBuffer)) : Option (List Segment × CommandBuffer) :=
  written.map fun (segment, buf) => ([segment], buf)

/-- What a call writes; none where it returns a null pointer. -/
def build : Call → Option (List Segment × CommandBuffer)
  | AgcCbNop size_in_dwords => single (Agc.AgcCbNop grow buf size_in_dwords)
  | AgcCbDispatch x y z modifier => single (Agc.AgcCbDispatch grow buf x y z modifier)
  | AgcCbBranch args => single (Agc.AgcCbBranch grow buf args)
  | AgcAcbDmaData args => single (Agc.AgcAcbDmaData grow buf args)
  | AgcDcbDmaData engine args block_engine =>
    single (Agc.AgcDcbDmaData grow buf engine args block_engine)
  | AgcAcbCopyData args => single (Agc.AgcAcbCopyData grow buf args)
  | AgcDcbCopyData args => single (Agc.AgcDcbCopyData grow buf args)
  | AgcAcbDispatchIndirect indirect_args modifier =>
    single (Agc.AgcAcbDispatchIndirect grow buf indirect_args modifier)
  | AgcDcbDispatchIndirect data_offset_in_bytes flags =>
    single (Agc.AgcDcbDispatchIndirect grow buf data_offset_in_bytes flags)
  | AgcAcbWriteData args => single (Agc.AgcAcbWriteData grow buf args)
  | AgcDcbWriteData args => single (Agc.AgcDcbWriteData grow buf args)
  | AgcDcbJump mode cache_policy target size_in_dwords =>
    single (Agc.AgcDcbJump grow buf mode cache_policy target size_in_dwords)
  | AgcDcbRewind initial_state => single (Agc.AgcDcbRewind grow buf initial_state)
  | AgcDcbSetPredication condition op wait_op address count_in_dwords =>
    single (Agc.AgcDcbSetPredication grow buf condition op wait_op address count_in_dwords)
  | AgcDcbContextStateOp operation => Agc.AgcDcbContextStateOp grow buf operation

end Build

/-- The bytes that the matching function says a call writes; none where there is no such
function. -/
def getSize : Call → Option ℕ
  | AgcCbNop size_in_dwords => some (AgcCbNopGetSize size_in_dwords).toNat
  | AgcCbDispatch .. => some AgcCbDispatchGetSize.toNat
  | AgcDcbDispatchIndirect .. => some AgcDcbDispatchIndirectGetSize.toNat
  | AgcDcbWriteData args => some (AgcDcbWriteDataGetSize args.num_dwords).toNat
  | AgcDcbJump .. => some AgcDcbJumpGetSize.toNat
  | AgcDcbRewind _ => some AgcDcbRewindGetSize.toNat
  | AgcDcbContextStateOp operation => some (AgcDcbContextStateOpGetSize operation).toNat
  | _ => none

/-- The addresses are aligned as the packet needs and below `2 ^ 48`, and the other arguments fit
the fields of the packet. -/
def Fits : Call → Prop
  | AgcCbNop size_in_dwords => size_in_dwords.toNat ≤ 0x4001
  | AgcCbBranch args =>
    args.mode.toNat < 2 ^ 2 ∧ args.compare_function.toNat < 2 ^ 3 ∧
      args.compare_addr.toNat % 8 = 0 ∧ args.buffer1.toNat % 4 = 0 ∧ args.buffer2.toNat % 4 = 0 ∧
      args.size_in_dwords1.toNat < 2 ^ 20 ∧ args.size_in_dwords2.toNat < 2 ^ 20
  | AgcAcbDmaData args => DmaFits args
  | AgcDcbDmaData engine args block_engine =>
    engine.toNat < 2 ^ 1 ∧ DmaFits args ∧ block_engine.toNat < 2 ^ 1
  | AgcAcbCopyData args => args.src.toNat < 2 ^ 4 ∧ args.dst.toNat < 2 ^ 4 ∧ CopyFits args
  | AgcDcbCopyData args => args.src.toNat < 2 ^ 5 ∧ args.dst.toNat < 2 ^ 5 ∧ CopyFits args
  | AgcAcbWriteData args => args.dst.toNat < 2 ^ 4 ∧ WriteFits args
  | AgcDcbWriteData args =>
    args.dst.toNat < 2 ^ 5 ∧ args.address_or_offset.toNat % 4 = 0 ∧ WriteFits args
  | AgcDcbJump _ _ target size_in_dwords =>
    target.toNat % 4 = 0 ∧ target.toNat < 2 ^ 48 ∧ size_in_dwords.toNat < 2 ^ 20
  | AgcDcbRewind initial_state => initial_state.toNat < 2 ^ 1
  | AgcDcbSetPredication condition op wait_op address _ =>
    condition.toNat < 2 ^ 1 ∧ op.toNat < 2 ^ 3 ∧ wait_op.toNat < 2 ^ 1 ∧
      address.toNat % 16 = 0 ∧ address.toNat < 2 ^ 48
  | _ => True
where
  DmaFits (args : DmaDataArgs) : Prop :=
    args.dst.toNat < 2 ^ 4 ∧ args.dst_cache_policy.toNat < 2 ^ 2 ∧
      args.src_cache_policy.toNat < 2 ^ 2 ∧ args.num_bytes.toNat < 2 ^ 26 ∧
      args.wait_for_previous.toNat < 2 ^ 1 ∧ args.write_confirm.toNat < 2 ^ 1
  CopyFits (args : CopyDataArgs) : Prop :=
    args.dst_cache_policy.toNat < 2 ^ 2 ∧ args.src_cache_policy.toNat < 2 ^ 2 ∧
      args.item_size.toNat < 2 ^ 1 ∧ args.write_confirm.toNat < 2 ^ 1
  WriteFits (args : WriteDataArgs) : Prop :=
    args.cache_policy.toNat < 2 ^ 2 ∧ args.num_dwords.toNat ≤ 0x3ffd ∧
      args.increment.toNat < 2 ^ 1 ∧ args.write_confirm.toNat < 2 ^ 1

/-! ## The packets of a call -/

/-- A dispatch takes these bits of a modifier. -/
def dispatchMode (modifier : BitVec 32) : BitVec 32 := (modifier &&& 0xa038#32) ||| 0x41#32

/-- A DMA packet. Of a source code that stands for a register the low bits are in the packet, with
the address of the register. -/
def dmaPacket (engine : BitVec 8) (args : DmaDataArgs) (src_address : BitVec 64)
    (block_engine : BitVec 8) : Packet :=
  .dma {
    engine := engine
    dst_sel := args.dst
    dst_cache_policy := args.dst_cache_policy
    dst_address_or_offset := args.dst_address_or_offset
    src_sel := args.src &&& 0xf#8
    src_cache_policy := args.src_cache_policy
    src_address_or_offset_or_immediate := src_address
    num_bytes := args.num_bytes
    wait_for_previous := args.wait_for_previous
    write_confirm := args.write_confirm
    block_engine := block_engine }

/-- A copy packet with selectors of five bits: those of four bits and the engine. -/
def copyPacket (src_sel dst_sel : BitVec 32) (args : CopyDataArgs) : Packet :=
  .copy {
    src_sel := src_sel
    dst_sel := dst_sel
    src_cache := args.src_cache_policy
    dst_cache := args.dst_cache_policy
    write_confirm := args.write_confirm
    num_bytes := if args.item_size = 1#8 then 8#32 else 4#32
    src := args.src_address_or_immediate
    dst := args.dst_address }

/-- A write packet; a write of a register has no confirmation. -/
def writePacket (dst_sel : BitVec 32) (args : WriteDataArgs) : Packet :=
  .write args.address_or_offset (copied (args.data.getD fun _ => 0) args.num_dwords) {
    dst_sel := dst_sel
    cache_policy := wide args.cache_policy
    increment := wide args.increment
    write_confirm := if args.dst = 0 then 0 else wide args.write_confirm }

/-- The packets of a context operation: the operation is in the first, and the others are empty. -/
def contextPackets : ContextStateOperation → List Packet
  | .Clear => [.contextState .Clear 5]
  | .Push => [.contextState .Push 5, .nop 8, .nop 9, .nop 3, .nop 2]
  | .Pop => [.contextState .Pop 3, .nop 5, .nop 8, .nop 9, .nop 2]
  | .PushClear => [.contextState .PushClear 5, .nop 8, .nop 9, .nop 3, .nop 2, .nop 5]

/-- What a call writes, with its arguments as they were given. -/
def packets : Call → List Packet
  | AgcCbNop size_in_dwords => [.nop size_in_dwords.toNat]
  | AgcCbDispatch x y z modifier => [.dispatch x y z (dispatchMode modifier)]
  | AgcCbBranch args =>
    [.branch {
      compare_addr := args.compare_addr
      mask := args.mask
      reference := args.reference
      mode := wide args.mode
      function := args.compare_function.toNat
      then_buffer := args.buffer1
      then_num_dw := args.size_in_dwords1.toNat
      else_buffer := args.buffer2
      else_num_dw := args.size_in_dwords2.toNat }]
  | AgcAcbDmaData args => [dmaPacket 0 args (acbSource args) 0]
  | AgcDcbDmaData engine args block_engine =>
    [dmaPacket engine args (dcbSource engine args) block_engine]
  | AgcAcbCopyData args => [copyPacket (wide args.src <<< 1) (wide args.dst <<< 1) args]
  | AgcDcbCopyData args => [copyPacket (wide args.src) (wide args.dst &&& ~~~1#32) args]
  | AgcAcbDispatchIndirect indirect_args modifier =>
    [.dispatchIndirectAt indirect_args (dispatchMode modifier)]
  | AgcDcbDispatchIndirect data_offset_in_bytes flags =>
    [.dispatchIndirect data_offset_in_bytes (dispatchMode flags)]
  | AgcAcbWriteData args => [writePacket (wide args.dst <<< 1) args]
  | AgcDcbWriteData args => [writePacket (wide args.dst) args]
  | AgcDcbJump _ _ target size_in_dwords => [.jump target size_in_dwords.toNat]
  | AgcDcbRewind initial_state => [.rewind (initial_state = 1)]
  | AgcDcbSetPredication condition op wait_op address _ =>
    [.predication ⟨wide condition, wide op, wide wait_op, address⟩]
  | AgcDcbContextStateOp operation =>
    ((ContextStateOperation.ofWord operation).map contextPackets).getD []

end Call

end MagnusPS5.Agc
