/-
What the handlers of dispatches, predication, copies and writes ask of the command processor
(`pm4Handlers.cpp`), with what `CommandProcessor` checks of it first (`graphicsRun.cpp`).

The rest of what `CommandProcessor` does is a parameter, `execute`.
-/
import MagnusPS5.Graphics.Pm4Handlers

namespace MagnusPS5.Graphics.Pm4

inductive ContextStateOperation
  | Clear
  | Push
  | Pop
  | PushClear
  deriving DecidableEq

namespace ContextStateOperation

/-- The number of an operation. -/
def word : ContextStateOperation → BitVec 32
  | Clear => 0#32
  | Push => 1#32
  | Pop => 2#32
  | PushClear => 3#32

/-- The operation with a number. -/
def ofWord (operation : BitVec 32) : Option ContextStateOperation :=
  if operation = 0#32 then some Clear
  else if operation = 1#32 then some Push
  else if operation = 2#32 then some Pop
  else if operation = 3#32 then some PushClear
  else none

theorem ofWord_eq_some {w : BitVec 32} {operation : ContextStateOperation} :
    ofWord w = some operation ↔ w = operation.word := by
  unfold ofWord
  constructor
  · intro h
    split_ifs at h <;> cases h <;> assumption
  · rintro rfl
    cases operation <;> rfl

end ContextStateOperation

/-- The arguments of `CommandProcessor::DmaData`. -/
structure DmaData where
  engine : BitVec 8
  dst_sel : BitVec 8
  dst_cache_policy : BitVec 8
  dst_address_or_offset : BitVec 64
  src_sel : BitVec 8
  src_cache_policy : BitVec 8
  src_address_or_offset_or_immediate : BitVec 64
  num_bytes : BitVec 32
  wait_for_previous : BitVec 8
  write_confirm : BitVec 8
  block_engine : BitVec 8
  deriving DecidableEq

/-- What `CpOpCopyData` reads. -/
structure CopyData where
  src_sel : BitVec 32
  dst_sel : BitVec 32
  src_cache : BitVec 8
  dst_cache : BitVec 8
  write_confirm : BitVec 8
  num_bytes : BitVec 32
  src : BitVec 64
  dst : BitVec 64
  deriving DecidableEq

/-- What `CommandProcessor::WriteData` reads in `write_control`. -/
structure WriteControl where
  dst_sel : BitVec 32
  cache_policy : BitVec 32
  increment : BitVec 32
  write_confirm : BitVec 32
  deriving DecidableEq

/-- What `CpOpSetPredication` reads. -/
structure Predication where
  condition : BitVec 32
  op : BitVec 32
  wait_op : BitVec 32
  address : BitVec 64
  deriving DecidableEq

/-- A call of `CommandProcessor` in a handler. -/
inductive Request
  | DispatchDirect (thread_group_x thread_group_y thread_group_z mode : BitVec 32)
      (indirect_args_addr : BitVec 64)
  | DispatchIndirect (data_offset mode : BitVec 32)
  | SetPredication (args : Predication) (count_in_dwords : BitVec 32)
  | WriteReferenceClock (dst_address : BitVec 64) (num_bytes : BitVec 32)
  | DmaData (args : DmaData)
  | WriteData (dst : BitVec 64) (src : List (BitVec 32)) (dw_num : BitVec 32)
      (write_control : WriteControl)
  | ApplyContextStateOperation (operation : ContextStateOperation)
  deriving DecidableEq

/-! ## What the handlers read -/

/-- The payload is of the new form if it has no flags but those, and an address of 48 bits. -/
def readPredication (payload_dw : ℕ) (buffer : ℕ → BitVec 32) : Predication :=
  let predication_flags_mask := 0x00071100#32
  let (flags, address_value) :=
    if 3 ≤ payload_dw ∧ buffer 0 &&& ~~~predication_flags_mask = 0 ∧ buffer 2 ≤ 0x0000ffff#32 then
      (buffer 0, buffer 2 ++ (buffer 1 &&& 0xfffffff0#32))
    else (buffer 1, (buffer 1 &&& 0xff#32) ++ (buffer 0 &&& 0xfffffff0#32))
  ⟨(flags >>> 8) &&& 0x1#32, (flags >>> 16) &&& 0x7#32, (flags >>> 12) &&& 0x1#32, address_value⟩

variable (buffer : ℕ → BitVec 32)

def readCopyData : CopyData :=
  let control := buffer 0
  { src_sel := ((control &&& 0xf#32) <<< 1) ||| ((control >>> 30) &&& 0x1#32)
    dst_sel := ((control >>> 8) &&& 0xf#32) <<< 1
    src_cache := ((control >>> 13) &&& 0x3#32).setWidth 8
    dst_cache := ((control >>> 25) &&& 0x3#32).setWidth 8
    write_confirm := ((control >>> 20) &&& 0x1#32).setWidth 8
    num_bytes := if (control >>> 16) &&& 0x1#32 ≠ 0 then 8#32 else 4#32
    src := buffer 2 ++ buffer 1
    dst := buffer 4 ++ buffer 3 }

def readDmaData : DmaData :=
  let control := buffer 0
  let control2 := buffer 5
  { engine := (control &&& 0x1#32).setWidth 8
    dst_sel := (((control >>> 20) &&& 0x3#32) ||| ((control2 >>> 25) &&& 0x4#32) |||
      ((control2 >>> 26) &&& 0x8#32)).setWidth 8
    dst_cache_policy := ((control >>> 25) &&& 0x3#32).setWidth 8
    dst_address_or_offset := buffer 4 ++ buffer 3
    src_sel := (((control >>> 29) &&& 0x3#32) ||| ((control2 >>> 24) &&& 0x4#32) |||
      ((control2 >>> 25) &&& 0x8#32)).setWidth 8
    src_cache_policy := ((control >>> 13) &&& 0x3#32).setWidth 8
    src_address_or_offset_or_immediate := buffer 2 ++ buffer 1
    num_bytes := control2 &&& 0x03ffffff#32
    wait_for_previous := ((control2 >>> 30) &&& 0x1#32).setWidth 8
    write_confirm := ((control2 >>> 31) &&& 0x1#32).setWidth 8
    block_engine := ((control >>> 31) &&& 0x1#32).setWidth 8 }

/-- The packets of `CpOpDmaData` that are passed over. -/
def DmaDataPassedOver : Prop :=
  buffer 0 = 0x60000000#32 ∧ buffer 4 ++ buffer 3 = 0x0003022c#64 ∧ buffer 5 >>> 21 = 0x141#32

instance (buffer : ℕ → BitVec 32) : Decidable (DmaDataPassedOver buffer) :=
  inferInstanceAs (Decidable (_ ∧ _ ∧ _))

def readWriteControl (write_control : BitVec 32) : WriteControl where
  dst_sel := ((write_control >>> 30) &&& 0x1#32) ||| ((write_control >>> 7) &&& 0x1e#32)
  cache_policy := (write_control >>> 25) &&& 0x3#32
  increment := (write_control >>> 16) &&& 0x1#32
  write_confirm := (write_control >>> 20) &&& 0x1#32

/-! ## What the handlers ask -/

namespace CopyData

/-- The destination that a reference clock is copied to; 0 for another source. -/
def reference_clock_dst (c : CopyData) : BitVec 32 :=
  if c.src_sel = 9#32 then 2#32 else if c.src_sel = 18#32 then 4#32 else 0#32

/-- What `CpOpCopyData` takes. -/
def taken (c : CopyData) : Bool :=
  if c.reference_clock_dst ≠ 0 then
    c.dst_sel = c.reference_clock_dst && c.dst ≠ 0 && c.dst.toNat % c.num_bytes.toNat = 0
  else
    match CommandProcessor.CopyDataSrcToDma c.src_sel,
      CommandProcessor.CopyDataDstToDma c.dst_sel with
    | some dma_src, some _ => !(dma_src = 2 && c.num_bytes = 8)
    | _, _ => false

def request (c : CopyData) : Request :=
  if c.reference_clock_dst ≠ 0 then .WriteReferenceClock c.dst c.num_bytes
  else
    .DmaData {
      engine := 0
      dst_sel := BitVec.ofNat 8 ((CommandProcessor.CopyDataDstToDma c.dst_sel).getD 0)
      dst_cache_policy := c.dst_cache
      dst_address_or_offset := c.dst
      src_sel := BitVec.ofNat 8 ((CommandProcessor.CopyDataSrcToDma c.src_sel).getD 0)
      src_cache_policy := c.src_cache
      src_address_or_offset_or_immediate := c.src
      num_bytes := c.num_bytes
      wait_for_previous := 1
      write_confirm := c.write_confirm
      block_engine := 1 }

end CopyData

variable {S : Type*}

namespace CommandProcessor

variable (cp : CommandProcessor S)

def CpOpDispatchIndirectRequest (s : S) (cmd_id : BitVec 32) (buffer : ℕ → BitVec 32) : Request :=
  if cmd_id = 0xC0021600#32 then
    let args_addr := buffer 1 ++ buffer 0
    let args := args_addr.toNat
    .DispatchDirect (cp.dword s args 0) (cp.dword s args 1) (cp.dword s args 2) (buffer 2) args_addr
  else .DispatchIndirect (buffer 0) (buffer 1)

/-- The calls of `CommandProcessor` in the handler of a packet; none for the other handlers. -/
def requestsOf (s : S) (cmd_id : BitVec 32) (words : List (BitVec 32)) : Option (List Request) :=
  let buffer (i : ℕ) : BitVec 32 := words.getD i 0
  let op := opcodeOf cmd_id
  if op = IT_DISPATCH_DIRECT then
    some [.DispatchDirect (buffer 0) (buffer 1) (buffer 2) (buffer 3) 0]
  else if op = IT_DISPATCH_INDIRECT then some [cp.CpOpDispatchIndirectRequest s cmd_id buffer]
  else if op = IT_SET_PREDICATION then
    some [.SetPredication (readPredication (KYTY_PM4_LEN cmd_id - 1) buffer) 0]
  else if op = IT_COPY_DATA then some [(readCopyData buffer).request]
  else if op = IT_DMA_DATA then
    some (if DmaDataPassedOver buffer then [] else [.DmaData (readDmaData buffer)])
  else if op = IT_WRITE_DATA then
    some [.WriteData (buffer 2 ++ buffer 1) (words.drop 3) (BitVec.ofNat 32 (reg_num cmd_id) - 2#32)
      (readWriteControl (buffer 0))]
  else if op = IT_NOP ∧ KYTY_PM4_R cmd_id = R_CONTEXT_STATE then
    (ContextStateOperation.ofWord (buffer 0)).map fun operation =>
      [.ApplyContextStateOperation operation]
  else none

/-- What `CommandProcessor` does with a call: its first checks, and `execute`. -/
def serve (execute : S → Request → Option S) (s : S) : Request → Option S
  | .DmaData args =>
    if 1#8 < args.engine then none
    else if args.num_bytes = 0 then some s
    else if 3#8 < args.dst_cache_policy ∨ 3#8 < args.src_cache_policy ∨
        1#8 < args.wait_for_previous ∨ 1#8 < args.write_confirm ∨ 1#8 < args.block_engine then none
    else if args.dst_address_or_offset.setWidth 32 = 0x3022c#32 then some s
    else execute s (.DmaData args)
  | .WriteData dst src dw_num write_control =>
    if write_control.dst_sel ≠ 0#32 ∧ write_control.dst_sel ≠ 2#32 ∧
        write_control.dst_sel ≠ 4#32 ∧ write_control.dst_sel ≠ 5#32 ∧
        write_control.dst_sel ≠ 6#32 then none
    else if write_control.increment ≠ 0 then none
    else if dw_num = 0 then some s
    else execute s (.WriteData dst src dw_num write_control)
  | .WriteReferenceClock dst_address num_bytes =>
    if dst_address = 0 ∨ (num_bytes ≠ 4#32 ∧ num_bytes ≠ 8#32) ∨
        dst_address &&& (num_bytes - 1#32).setWidth 64 ≠ 0 then none
    else execute s (.WriteReferenceClock dst_address num_bytes)
  | request => execute s request

/-- The command processor whose handlers ask for what they ask. -/
def serving (execute : S → Request → Option S) : CommandProcessor S :=
  { cp with
    perform := fun s cmd_id words =>
      match cp.requestsOf s cmd_id words with
      | none => cp.perform s cmd_id words
      | some requests => requests.foldlM (serve execute) s }

variable (execute : S → Request → Option S)

@[simp] theorem serving_dword : (cp.serving execute).dword = cp.dword := rfl

/-- What is done at the end of a handler that has asked for `requests`. -/
def asks (s : S) (requests : List Request) (count : ℕ) : Answer S :=
  match requests.foldlM (serve execute) s with
  | none => .exit
  | some s' => .ran s' count

theorem runs_serving {s : S} {cmd_id : BitVec 32} {buffer count : ℕ} {requests : List Request}
    (h : cp.requestsOf s cmd_id (cp.dwords s buffer count) = some requests) :
    (cp.serving execute).runs s cmd_id buffer count = asks execute s requests count := by
  unfold runs serving asks dwords
  unfold dwords at h
  change (match (match cp.requestsOf s cmd_id ((List.range count).map (cp.dword s buffer)) with
    | none => _ | some requests => _ : Option S) with | none => _ | some s' => _) = _
  rw [h]

end CommandProcessor

end MagnusPS5.Graphics.Pm4
