/-
The functions of `agc.cpp` that write packets without registers into a command buffer, and those
that patch such packets later.

The guest's callback that grows a command buffer is a parameter, `grow`. A function that writes a
packet makes its dwords and the place they are written to, and none where it returns a null
pointer.
-/
import MagnusPS5.Graphics.Pm4Registers
import MagnusPS5.Graphics.Pm4Packets

namespace MagnusPS5.Agc

open Graphics.Pm4

def KYTY_PM4 (len op r : BitVec 32) : BitVec 32 :=
  (0xC0000000#32 ||| ((((len.setWidth 16).setWidth 32 - 2#32) &&& 0x3fff#32) <<< 16)) |||
    ((op &&& 0xff#32) <<< 8) ||| ((r &&& 0x3f#32) <<< 2)

/-- The low dword of 64 bits. -/
def low (value : BitVec 64) : BitVec 32 := (value &&& 0xffffffff#64).setWidth 32

/-- The high dword of 64 bits. -/
def high (value : BitVec 64) : BitVec 32 := ((value >>> 32) &&& 0xffffffff#64).setWidth 32

/-- `static_cast<uint32_t>` of a byte. -/
def wide (value : BitVec 8) : BitVec 32 := value.setWidth 32

/-! ## Command buffers -/

/-- A `CommandBuffer`. The cursors are addresses, and the callback is null or not. -/
structure CommandBuffer where
  cursor_up : ℕ
  cursor_down : ℕ
  callback : ℕ
  reserved_dw : BitVec 32
  deriving DecidableEq

namespace CommandBuffer

variable (buf : CommandBuffer)

def GetAvailableSizeDW : BitVec 32 :=
  if buf.cursor_up = 0 ∨ buf.cursor_down = 0 ∨ buf.cursor_down ≤ buf.cursor_up then 0
  else
    let available := (buf.cursor_down - buf.cursor_up) / 4
    if available ≤ buf.reserved_dw.toNat then 0
    else if 0xffffffff < available - buf.reserved_dw.toNat then 0xffffffff#32
    else BitVec.ofNat 32 (available - buf.reserved_dw.toNat)

variable (grow : CommandBuffer → BitVec 32 → Option CommandBuffer)

def ReserveDW (num_dw : BitVec 32) : Option CommandBuffer :=
  if buf.GetAvailableSizeDW < num_dw then
    if buf.callback = 0 then none
    else
      match grow buf (num_dw + buf.reserved_dw) with
      | none => none
      | some grown => if grown.GetAvailableSizeDW < num_dw then none else some grown
  else some buf

def AllocateDW (size_dw : BitVec 32) : Option (ℕ × CommandBuffer) :=
  if size_dw = 0 then none
  else
    (buf.ReserveDW grow size_dw).map fun buf =>
      (buf.cursor_up, { buf with cursor_up := buf.cursor_up + 4 * size_dw.toNat })

end CommandBuffer

/-- Dwords that are written at an address. -/
structure Segment where
  cmd : ℕ
  dwords : List (BitVec 32)
  deriving DecidableEq

/-! ## Packets -/

section Builders

variable (grow : CommandBuffer → BitVec 32 → Option CommandBuffer) (buf : CommandBuffer)

/-- Dwords in a place of `size_dw` dwords. -/
def emit (size_dw : BitVec 32) (dwords : List (BitVec 32)) : Option (Segment × CommandBuffer) :=
  (buf.AllocateDW grow size_dw).map fun (cmd, buf) => (⟨cmd, dwords⟩, buf)

def AgcCbNop (size_in_dwords : BitVec 32) : Option (Segment × CommandBuffer) :=
  if size_in_dwords < 2#32 then none
  else
    emit grow buf size_in_dwords
      (KYTY_PM4 size_in_dwords IT_NOP R_ZERO :: List.replicate (size_in_dwords.toNat - 1) 0#32)

def AgcCbNopGetSize (size_in_dwords : BitVec 32) : BitVec 32 := 4#32 * size_in_dwords

def AgcCbDispatch (thread_group_x thread_group_y thread_group_z modifier : BitVec 32) :
    Option (Segment × CommandBuffer) :=
  emit grow buf 5
    [KYTY_PM4 5 IT_DISPATCH_DIRECT 0, thread_group_x, thread_group_y, thread_group_z,
      (modifier &&& 0xa038#32) ||| 0x41#32]

def AgcCbDispatchGetSize : BitVec 32 := 20#32

/-- The arguments of `AgcCbBranch`. -/
structure BranchArgs where
  mode : BitVec 8
  compare_function : BitVec 8
  compare_addr : BitVec 64
  mask : BitVec 64
  reference : BitVec 64
  cache_policy1 : BitVec 8
  buffer1 : BitVec 64
  size_in_dwords1 : BitVec 32
  cache_policy2 : BitVec 8
  buffer2 : BitVec 64
  size_in_dwords2 : BitVec 32

def AgcCbBranch (args : BranchArgs) : Option (Segment × CommandBuffer) :=
  emit grow buf 14
    [KYTY_PM4 14 IT_INDIRECT_BUFFER 0,
      (wide args.mode &&& 0x3#32) ||| ((wide args.compare_function &&& 0x7#32) <<< 8),
      low (args.compare_addr &&& 0xfffffff8#64), high args.compare_addr,
      low args.mask, high args.mask, low args.reference, high args.reference,
      low (args.buffer1 &&& 0xfffffffc#64), high args.buffer1,
      (args.size_in_dwords1 &&& 0xfffff#32) ||| ((wide args.cache_policy1 &&& 0x3#32) <<< 28),
      low (args.buffer2 &&& 0xfffffffc#64), high args.buffer2,
      (args.size_in_dwords2 &&& 0xfffff#32) ||| ((wide args.cache_policy2 &&& 0x3#32) <<< 28)]

/-- The arguments that `AgcAcbDmaData` and `AgcDcbDmaData` have in common. -/
structure DmaDataArgs where
  dst : BitVec 8
  dst_cache_policy : BitVec 8
  dst_address_or_offset : BitVec 64
  src : BitVec 8
  src_cache_policy : BitVec 8
  src_address_or_offset_or_immediate : BitVec 64
  num_bytes : BitVec 32
  wait_for_previous : BitVec 8
  write_confirm : BitVec 8

variable (args : DmaDataArgs)

/-- The last dword of a DMA packet. -/
def dmaControl2 : BitVec 32 :=
  (args.num_bytes &&& 0x03ffffff#32) ||| ((wide args.src &&& 0x4#32) <<< 24) |||
    ((wide args.dst &&& 0x4#32) <<< 25) ||| ((wide args.src &&& 0x8#32) <<< 25) |||
    ((wide args.dst &&& 0x8#32) <<< 26) ||| ((wide args.wait_for_previous &&& 0x1#32) <<< 30) |||
    ((wide args.write_confirm &&& 0x1#32) <<< 31)

/-- The source of `AgcAcbDmaData`: codes of registers stand for their addresses. -/
def acbSource : BitVec 64 :=
  if args.src = 0x14#8 then 0x30174#64
  else if args.src = 0x24#8 then 0x3017c#64
  else if args.src = 0x25#8 then 0x30184#64
  else args.src_address_or_offset_or_immediate

def AgcAcbDmaData : Option (Segment × CommandBuffer) :=
  let src_address := acbSource args
  emit grow buf 7
    [KYTY_PM4 7 IT_DMA_DATA 0,
      ((wide args.src_cache_policy &&& 0x3#32) <<< 13) ||| ((wide args.dst &&& 0x3#32) <<< 20) |||
        ((wide args.dst_cache_policy &&& 0x3#32) <<< 25) ||| ((wide args.src &&& 0x3#32) <<< 29),
      low src_address, high src_address,
      low args.dst_address_or_offset, high args.dst_address_or_offset, dmaControl2 args]

/-- The source of `AgcDcbDmaData`. -/
def dcbSource (engine : BitVec 8) (args : DmaDataArgs) : BitVec 64 :=
  if args.src = 0x14#8 then (if engine = 1#8 then 0x30148#64 else 0x30174#64)
  else if args.src = 0x24#8 then (if engine = 1#8 then 0x30150#64 else 0x3017c#64)
  else if args.src = 0x64#8 then (if engine = 1#8 then 0x30158#64 else 0x30184#64)
  else args.src_address_or_offset_or_immediate

def AgcDcbDmaData (engine : BitVec 8) (args : DmaDataArgs) (block_engine : BitVec 8) :
    Option (Segment × CommandBuffer) :=
  let src_address := dcbSource engine args
  emit grow buf 7
    [KYTY_PM4 7 IT_DMA_DATA 0,
      (wide engine &&& 0x1#32) ||| ((wide args.src_cache_policy &&& 0x3#32) <<< 13) |||
        ((wide args.dst &&& 0x3#32) <<< 20) ||| ((wide args.dst_cache_policy &&& 0x3#32) <<< 25) |||
        ((wide args.src &&& 0x3#32) <<< 29) ||| ((wide block_engine &&& 0x1#32) <<< 31),
      low src_address, high src_address,
      low args.dst_address_or_offset, high args.dst_address_or_offset, dmaControl2 args]

/-- The arguments of `AgcAcbCopyData` and `AgcDcbCopyData`. -/
structure CopyDataArgs where
  dst : BitVec 8
  dst_cache_policy : BitVec 8
  dst_address : BitVec 64
  src : BitVec 8
  src_cache_policy : BitVec 8
  src_address_or_immediate : BitVec 64
  item_size : BitVec 8
  write_confirm : BitVec 8

def AgcAcbCopyData (args : CopyDataArgs) : Option (Segment × CommandBuffer) :=
  emit grow buf 6
    [KYTY_PM4 6 IT_COPY_DATA 0,
      (wide args.src &&& 0xf#32) ||| ((wide args.dst &&& 0xf#32) <<< 8) |||
        ((wide args.src_cache_policy &&& 0x3#32) <<< 13) |||
        ((wide args.item_size &&& 0x1#32) <<< 16) |||
        ((wide args.write_confirm &&& 0x1#32) <<< 20) |||
        ((wide args.dst_cache_policy &&& 0x3#32) <<< 25),
      low args.src_address_or_immediate, high args.src_address_or_immediate,
      low args.dst_address, high args.dst_address]

def AgcDcbCopyData (args : CopyDataArgs) : Option (Segment × CommandBuffer) :=
  emit grow buf 6
    [KYTY_PM4 6 IT_COPY_DATA 0,
      ((wide args.src >>> 1) &&& 0xf#32) ||| (((wide args.dst >>> 1) &&& 0xf#32) <<< 8) |||
        ((wide args.src_cache_policy &&& 0x3#32) <<< 13) |||
        ((wide args.item_size &&& 0x1#32) <<< 16) |||
        ((wide args.write_confirm &&& 0x1#32) <<< 20) |||
        ((wide args.dst_cache_policy &&& 0x3#32) <<< 25) ||| ((wide args.src &&& 0x1#32) <<< 30),
      low args.src_address_or_immediate, high args.src_address_or_immediate,
      low args.dst_address, high args.dst_address]

def AgcAcbDispatchIndirect (indirect_args : BitVec 64) (modifier : BitVec 32) :
    Option (Segment × CommandBuffer) :=
  emit grow buf 4
    [KYTY_PM4 4 IT_DISPATCH_INDIRECT 0, low indirect_args, high indirect_args,
      (modifier &&& 0xa038#32) ||| 0x41#32]

def AgcDcbDispatchIndirect (data_offset_in_bytes flags : BitVec 32) :
    Option (Segment × CommandBuffer) :=
  emit grow buf 3
    [KYTY_PM4 3 IT_DISPATCH_INDIRECT 0, data_offset_in_bytes, (flags &&& 0xa038#32) ||| 0x41#32]

def AgcDcbDispatchIndirectGetSize : BitVec 32 := 3#32 * 4#32

/-- The arguments of `AgcAcbWriteData` and `AgcDcbWriteData`. The data are the dwords at a pointer;
none where it is null. -/
structure WriteDataArgs where
  dst : BitVec 8
  cache_policy : BitVec 8
  address_or_offset : BitVec 64
  data : Option (ℕ → BitVec 32)
  num_dwords : BitVec 32
  increment : BitVec 8
  write_confirm : BitVec 8

variable (args : WriteDataArgs)

/-- The confirmation that is written: none for a register. -/
def writeConfirm : BitVec 32 :=
  if args.dst = 0 then 0 else wide args.write_confirm &&& 0x1#32

/-- The dwords that `memcpy` takes. -/
def copied (data : ℕ → BitVec 32) (num_dwords : BitVec 32) : List (BitVec 32) :=
  (List.range num_dwords.toNat).map data

def AgcAcbWriteData : Option (Segment × CommandBuffer) :=
  match args.data with
  | none => none
  | some data =>
    if args.num_dwords = 0 ∨ 0x3ffd#32 < args.num_dwords then none
    else
      emit grow buf (4#32 + args.num_dwords)
        (KYTY_PM4 (4#32 + args.num_dwords) IT_WRITE_DATA 0 ::
          (((wide args.dst &&& 0xf#32) <<< 8) ||| ((wide args.increment &&& 0x1#32) <<< 16) |||
            (writeConfirm args <<< 20) ||| ((wide args.cache_policy &&& 0x3#32) <<< 25)) ::
          low args.address_or_offset :: high args.address_or_offset :: copied data args.num_dwords)

def AgcDcbWriteData : Option (Segment × CommandBuffer) :=
  match args.data with
  | none => none
  | some data =>
    if 0x3fff#32 < 4#32 + args.num_dwords - 2#32 then none
    else
      emit grow buf (4#32 + args.num_dwords)
        (KYTY_PM4 (4#32 + args.num_dwords) IT_WRITE_DATA 0 ::
          (((wide args.dst &&& 0x1#32) <<< 30) ||| ((wide args.dst &&& 0x1e#32) <<< 7) |||
            ((wide args.increment &&& 0x1#32) <<< 16) ||| (writeConfirm args <<< 20) |||
            ((wide args.cache_policy &&& 0x3#32) <<< 25)) ::
          (low args.address_or_offset &&& ~~~0x3#32) :: high args.address_or_offset ::
          copied data args.num_dwords)

def AgcDcbWriteDataGetSize (num_dwords : BitVec 32) : BitVec 32 := 4#32 * num_dwords + 16#32

def AgcDcbJump (mode cache_policy : BitVec 8) (target : BitVec 64) (size_in_dwords : BitVec 32) :
    Option (Segment × CommandBuffer) :=
  emit grow buf 4
    [KYTY_PM4 4 IT_INDIRECT_BUFFER 0, low target &&& ~~~0x3#32, high target,
      0x0f200000#32 ||| ((wide cache_policy &&& 0x3#32) <<< 28) |||
        ((wide mode &&& 0x1#32) <<< 20) ||| (size_in_dwords &&& 0xfffff#32)]

def AgcDcbJumpGetSize : BitVec 32 := 16#32

def AgcDcbRewind (initial_state : BitVec 32) : Option (Segment × CommandBuffer) :=
  emit grow buf 2 [KYTY_PM4 2 IT_REWIND 0, (initial_state &&& 0x1#32) <<< 31]

def AgcDcbRewindGetSize : BitVec 32 := 8#32

/-- `count_in_dwords` is not in the packet. -/
def AgcDcbSetPredication (condition op wait_op : BitVec 8) (address : BitVec 64)
    (_count_in_dwords : BitVec 32) : Option (Segment × CommandBuffer) :=
  emit grow buf 4
    [KYTY_PM4 4 IT_SET_PREDICATION 0,
      ((wide condition &&& 0x1#32) <<< 8) ||| ((wide wait_op &&& 0x1#32) <<< 12) |||
        ((wide op &&& 0x7#32) <<< 16),
      low address &&& ~~~0xf#32, high address]

/-! ### Context states -/

variable (operation : BitVec 32)

/-- 0 for an unknown operation. -/
def context_state_op_size_dw : ℕ :=
  if operation = 0#32 then 5
  else if operation = 1#32 ∨ operation = 2#32 then 27
  else if operation = 3#32 then 32
  else 0

/-- The lambda `append`: the first packet has the operation, and the others are empty. -/
def append (segment_size_dw : ℕ) (written : List Segment × CommandBuffer) :
    Option (List Segment × CommandBuffer) :=
  (written.2.AllocateDW grow (BitVec.ofNat 32 segment_size_dw)).map fun (cmd, buf) =>
    let dwords :=
      if written.1 = [] then
        KYTY_PM4 (BitVec.ofNat 32 segment_size_dw) IT_NOP R_CONTEXT_STATE :: operation ::
          List.replicate (segment_size_dw - 2) 0#32
      else
        KYTY_PM4 (BitVec.ofNat 32 segment_size_dw) IT_NOP R_ZERO ::
          List.replicate (segment_size_dw - 1) 0#32
    (written.1 ++ [⟨cmd, dwords⟩], buf)

/-- The lambda `append_save_restore`. -/
def append_save_restore (written : List Segment × CommandBuffer) :
    Option (List Segment × CommandBuffer) := do
  let buf ← written.2.ReserveDW grow 22
  let written ← append grow operation 5 (written.1, buf)
  let written ← append grow operation 8 written
  append grow operation 9 written

def AgcDcbContextStateOp : Option (List Segment × CommandBuffer) :=
  if context_state_op_size_dw operation = 0 then none
  else if operation = 0#32 then append grow operation 5 ([], buf)
  else if operation = 1#32 then do
    let written ← append_save_restore grow operation ([], buf)
    let written ← append grow operation 3 written
    append grow operation 2 written
  else if operation = 2#32 then do
    let written ← append grow operation 3 ([], buf)
    let written ← append_save_restore grow operation written
    append grow operation 2 written
  else do
    let written ← append_save_restore grow operation ([], buf)
    let written ← append grow operation 3 written
    let written ← append grow operation 2 written
    append grow operation 5 written

def AgcDcbContextStateOpGetSize : BitVec 64 :=
  BitVec.ofNat 64 (context_state_op_size_dw operation) * 4#64

end Builders

/-! ## Patches

A patch makes the dwords that it leaves in the place of the packet, and none where it returns
`GRAPHICS5_ERROR_INVALID_PACKET`. -/

section Patches

variable (cmd : List (BitVec 32))

/-- The opcode of a packet that a patch is given. -/
def patchedOp : BitVec 32 := (cmd.getD 0 0 >>> 8) &&& 0xff#32

def AgcWriteDataPatchSetAddressOrOffset (address_or_offset : BitVec 64) :
    Option (List (BitVec 32)) :=
  if patchedOp cmd = IT_WRITE_DATA then
    some ((cmd.set 2 (low address_or_offset)).set 3 (high address_or_offset))
  else none

def AgcJumpPatchSetTarget (target : BitVec 64) (size_in_dwords : BitVec 32) :
    Option (List (BitVec 32)) :=
  if patchedOp cmd ≠ IT_INDIRECT_BUFFER then none
  else
    some (((cmd.set 1 (low target)).set 2
      ((cmd.getD 2 0 &&& 0xffff0000#32) ||| (high target &&& 0xffff#32))).set 3
      ((cmd.getD 3 0 &&& 0xfff00000#32) ||| (size_in_dwords &&& 0xfffff#32)))

def AgcDmaDataPatchSetDstAddressOrOffset (dst_address_or_offset : BitVec 64) :
    Option (List (BitVec 32)) :=
  if patchedOp cmd = IT_DMA_DATA then
    some ((cmd.set 4 (low dst_address_or_offset)).set 5 (high dst_address_or_offset))
  else none

def AgcDmaDataPatchSetSrcAddressOrOffsetOrImmediate
    (src_address_or_offset_or_immediate : BitVec 64) : Option (List (BitVec 32)) :=
  if patchedOp cmd = IT_DMA_DATA then
    some ((cmd.set 2 (low src_address_or_offset_or_immediate)).set 3
      (high src_address_or_offset_or_immediate))
  else none

def AgcRewindPatchSetRewindState (state : BitVec 8) : Option (List (BitVec 32)) :=
  if patchedOp cmd ≠ IT_REWIND then none
  else some (cmd.set 1 ((cmd.getD 1 0 &&& 0x7fffffff#32) ||| (wide state <<< 31)))

def AgcSetPacketPredication (predication : BitVec 32) : List (BitVec 32) :=
  cmd.set 0 ((cmd.getD 0 0 &&& ~~~1#32) ||| (if predication.setWidth 8 = 1#8 then 1#32 else 0#32))

end Patches

end MagnusPS5.Agc
