/-
The calls that append to a command buffer, as one type, the functions that measure them
(`Measure*`), and what a command buffer records: the commands in the order they were
appended.

`Recording` is the abstract side. It knows no memory and no vectors: an offset, the list of
commands, and the place where a gather or scatter read goes on.
-/
import MagnusPS5.Ampr.CommandBuffer

namespace MagnusPS5.Ampr

open KernelError

/-! ## Measures -/

def measureCommandSizeReadFile (destination size file_offset : ℕ) : Except KernelError ℕ :=
  if isValidAprReadRange destination size && isValidAprFileOffset file_offset then
    .ok (aprReadFileRecordSize file_offset)
  else .error KERNEL_ERROR_EINVAL

def measureCommandSizeReadFileGather (size file_offset : ℕ) : Except KernelError ℕ :=
  if isValidAprReadSize size && isValidAprFileOffset file_offset then
    .ok (aprReadGatherRecordSize file_offset)
  else .error KERNEL_ERROR_EINVAL

def measureCommandSizeReadFileScatter (destination size : ℕ) : Except KernelError ℕ :=
  if isValidAprReadRange destination size then .ok READ_SCATTER_RECORD_SIZE
  else .error KERNEL_ERROR_EINVAL

def measureCommandSizeReadFileGatherScatter (destination size file_offset : ℕ) :
    Except KernelError ℕ :=
  if isValidAprReadRange destination size && isValidAprFileOffset file_offset then
    .ok (aprReadGatherScatterRecordSize file_offset)
  else .error KERNEL_ERROR_EINVAL

def measureCommandSizeWriteKernelEventQueue : Except KernelError ℕ := .ok KERNEL_EVENT_RECORD_SIZE

/-- `MeasureCommandSizeFixed32` and the measures of the calls that write on completion. -/
def measureCommandSizeFixed32 : Except KernelError ℕ := .ok 0x20

/-- `MeasureAmmCommandSizeMap` and `MapWithGpuMaskId`. -/
def measureAmmCommandSizeMap : Except KernelError ℕ := .ok AMM_MAP_RECORD_SIZE

/-- `MeasureAmmCommandSizeMapDirect` and `MapDirectWithGpuMaskId`. -/
def measureAmmCommandSizeMapDirect : Except KernelError ℕ := .ok AMM_MAP_DIRECT_RECORD_SIZE

def measureAmmCommandSizeUnmap : Except KernelError ℕ := .ok AMM_UNMAP_RECORD_SIZE

def measureAprCommandSizeMapBegin (va size : ℕ) : Except KernelError ℕ :=
  if validateAmmMapArgs va size then .ok APR_MAP_BEGIN_RECORD_SIZE
  else .error KERNEL_ERROR_EINVAL

def measureAprCommandSizeMapDirectBegin (va dmem_offset size : ℕ) : Except KernelError ℕ :=
  if validateAmmMapArgs va size && dmem_offset % AMM_PAGE_SIZE == 0 then
    .ok APR_MAP_DIRECT_BEGIN_SIZE
  else .error KERNEL_ERROR_EINVAL

def measureCommandSizeNop (num_u32 : ℕ) : Except KernelError ℕ :=
  .ok (if num_u32 = 0 then 4 else alignUp4 (num_u32 * 4))

def measureCommandSizeNopWithData (num_u32 : ℕ) : Except KernelError ℕ :=
  .ok (alignUp4 ((num_u32 + 1) * 4))

def measureCommandSizeMarkerWithColor (msg : Option (List UInt8)) : Except KernelError ℕ :=
  .ok (markerCommandSize msg true)

def measureCommandSizeMarker (msg : Option (List UInt8)) : Except KernelError ℕ :=
  .ok (markerCommandSize msg false)

/-- `MeasureCommandSizePopMarker`, registered for every command of one word. -/
def measureCommandSizePopMarker : Except KernelError ℕ := .ok 4

/-! ## Calls -/

/-- A call that appends, with its arguments. -/
inductive AppendCall
  | ReadFile (file_id destination size file_offset : ℕ)
  | ReadFileGather (size file_offset : ℕ)
  | ReadFileScatter (destination size : ℕ)
  | ReadFileGatherScatter (destination size file_offset : ℕ)
  | ResetGatherScatterState
  | MapBegin (va size : ℕ)
  | MapDirectBegin (va dmem_offset size : ℕ)
  | MapEnd
  | WriteKernelEventQueue (eq id data : ℕ)
  | Nop (num_u32 : ℕ)
  | NopWithData (num_u32 : ℕ)
  | ConstructNop (bytes : ℕ)
  | ConstructMarker (msg : Option (List UInt8)) (with_color : Bool)
  | SetMarker (msg : Option (List UInt8))
  | SetMarkerWithColor (msg : Option (List UInt8))
  | PushMarker (msg : Option (List UInt8))
  | PushMarkerWithColor (msg : Option (List UInt8))
  | PopMarker
  | WaitOnAddress
  | WriteAddress (address value : ℕ)
  | WriteAddressFromCounter (address : ℕ)
  | AmmMap (va size : ℕ) (type prot : ℤ)
  | AmmMapWithGpuMaskId (va size : ℕ) (type prot : ℤ) (gpu_mask_id : ℕ)
  | AmmMapDirect (va dmem_offset size : ℕ) (type prot : ℤ)
  | AmmMapDirectWithGpuMaskId (va dmem_offset size : ℕ) (type prot : ℤ) (gpu_mask_id : ℕ)
  | AmmUnmap (va size : ℕ)
deriving DecidableEq

namespace AppendCall

/-- The call on a command buffer. -/
def run (command_buffer : ℕ) : AppendCall → Buffers → Reply
  | ReadFile file_id destination size file_offset =>
    aprCommandBufferReadFile command_buffer file_id destination size file_offset
  | ReadFileGather size file_offset =>
    aprCommandBufferReadFileGather command_buffer size file_offset
  | ReadFileScatter destination size =>
    aprCommandBufferReadFileScatter command_buffer destination size
  | ReadFileGatherScatter destination size file_offset =>
    aprCommandBufferReadFileGatherScatter command_buffer destination size file_offset
  | ResetGatherScatterState => aprCommandBufferResetGatherScatterState command_buffer
  | MapBegin va size => aprCommandBufferMapBegin command_buffer va size
  | MapDirectBegin va dmem_offset size =>
    aprCommandBufferMapDirectBegin command_buffer va dmem_offset size
  | MapEnd => aprCommandBufferMapEnd command_buffer
  | WriteKernelEventQueue eq id data =>
    commandBufferWriteKernelEventQueue command_buffer eq id data
  | Nop num_u32 => commandBufferNop command_buffer num_u32
  | NopWithData num_u32 => commandBufferNopWithData command_buffer num_u32
  | ConstructNop bytes => commandBufferConstructNop command_buffer bytes
  | ConstructMarker msg with_color => commandBufferConstructMarker command_buffer msg with_color
  | SetMarker msg => commandBufferSetMarker command_buffer msg
  | SetMarkerWithColor msg => commandBufferSetMarkerWithColor command_buffer msg
  | PushMarker msg => commandBufferPushMarker command_buffer msg
  | PushMarkerWithColor msg => commandBufferPushMarkerWithColor command_buffer msg
  | PopMarker => commandBufferPopMarker command_buffer
  | WaitOnAddress => commandBufferWaitOnAddress command_buffer
  | WriteAddress address value => commandBufferWriteAddress command_buffer address value
  | WriteAddressFromCounter address => commandBufferWriteAddressFromCounter command_buffer address
  | AmmMap va size type prot => ammCommandBufferMap command_buffer va size type prot
  | AmmMapWithGpuMaskId va size type prot gpu_mask_id =>
    ammCommandBufferMapWithGpuMaskId command_buffer va size type prot gpu_mask_id
  | AmmMapDirect va dmem_offset size type prot =>
    ammCommandBufferMapDirect command_buffer va dmem_offset size type prot
  | AmmMapDirectWithGpuMaskId va dmem_offset size type prot gpu_mask_id =>
    ammCommandBufferMapDirectWithGpuMaskId command_buffer va dmem_offset size type prot
      gpu_mask_id
  | AmmUnmap va size => ammCommandBufferUnmap command_buffer va size

/-- What the measure function of the call reports. `ConstructNop` has none of its own; it is
a nop with as many words of data as its bytes fill. -/
def measure : AppendCall → Except KernelError ℕ
  | ReadFile _ destination size file_offset =>
    measureCommandSizeReadFile destination size file_offset
  | ReadFileGather size file_offset => measureCommandSizeReadFileGather size file_offset
  | ReadFileScatter destination size => measureCommandSizeReadFileScatter destination size
  | ReadFileGatherScatter destination size file_offset =>
    measureCommandSizeReadFileGatherScatter destination size file_offset
  | ResetGatherScatterState | MapEnd | PopMarker => measureCommandSizePopMarker
  | MapBegin va size => measureAprCommandSizeMapBegin va size
  | MapDirectBegin va dmem_offset size => measureAprCommandSizeMapDirectBegin va dmem_offset size
  | WriteKernelEventQueue .. => measureCommandSizeWriteKernelEventQueue
  | Nop num_u32 => measureCommandSizeNop num_u32
  | NopWithData num_u32 => measureCommandSizeNopWithData num_u32
  | ConstructNop bytes => measureCommandSizeNopWithData ((bytes + 3) / 4)
  | ConstructMarker msg with_color =>
    if with_color then measureCommandSizeMarkerWithColor msg else measureCommandSizeMarker msg
  | SetMarker msg | PushMarker msg => measureCommandSizeMarker msg
  | SetMarkerWithColor msg | PushMarkerWithColor msg => measureCommandSizeMarkerWithColor msg
  | WaitOnAddress | WriteAddress .. | WriteAddressFromCounter _ => measureCommandSizeFixed32
  | AmmMap .. | AmmMapWithGpuMaskId .. => measureAmmCommandSizeMap
  | AmmMapDirect .. | AmmMapDirectWithGpuMaskId .. => measureAmmCommandSizeMapDirect
  | AmmUnmap .. => measureAmmCommandSizeUnmap

/-- The bytes that an accepted call takes in the record buffer. -/
def size : AppendCall → ℕ
  | ReadFile _ _ _ file_offset => aprReadFileRecordSize file_offset
  | ReadFileGather _ file_offset => aprReadGatherRecordSize file_offset
  | ReadFileScatter _ _ => READ_SCATTER_RECORD_SIZE
  | ReadFileGatherScatter _ _ file_offset => aprReadGatherScatterRecordSize file_offset
  | ResetGatherScatterState | MapEnd | PopMarker => 4
  | MapBegin _ _ => APR_MAP_BEGIN_RECORD_SIZE
  | MapDirectBegin _ _ _ => APR_MAP_DIRECT_BEGIN_SIZE
  | WriteKernelEventQueue .. => KERNEL_EVENT_RECORD_SIZE
  | Nop num_u32 => alignUp4 (num_u32 * 4)
  | NopWithData num_u32 => alignUp4 ((num_u32 + 1) * 4)
  | ConstructNop bytes => alignUp4 (4 + bytes)
  | ConstructMarker msg with_color => markerCommandSize msg with_color
  | SetMarker msg | PushMarker msg => markerCommandSize msg false
  | SetMarkerWithColor msg | PushMarkerWithColor msg => markerCommandSize msg true
  | WaitOnAddress | WriteAddress .. | WriteAddressFromCounter _ => 0x20
  | AmmMap .. | AmmMapWithGpuMaskId .. => AMM_MAP_RECORD_SIZE
  | AmmMapDirect .. | AmmMapDirectWithGpuMaskId .. => AMM_MAP_DIRECT_RECORD_SIZE
  | AmmUnmap .. => AMM_UNMAP_RECORD_SIZE

end AppendCall

/-! ## Recordings -/

/-- Where a gather or scatter read goes on. -/
structure Gather where
  file_id : ℕ
  destination : ℕ
  file_offset : ℕ
deriving DecidableEq

/-- What a command buffer records. -/
structure Recording where
  offset : ℕ := 0
  commands : List Command := []
  gather : Option Gather := none
deriving DecidableEq

namespace Recording

variable (r : Recording)

/-- `size` more bytes, and a command or none. -/
def extend (size : ℕ) (command : Option Command) (gather : Option Gather) : Recording :=
  { offset := r.offset + size, commands := r.commands ++ command.toList, gather }

/-- A read of a file, from which the next gather or scatter read goes on. -/
def readFile (record_size file_id destination size file_offset : ℕ) : Recording :=
  r.extend record_size
    (some (.ReadFile { record_offset := r.offset, file_id, destination, size, file_offset }))
    (some ⟨file_id, destination + size, file_offset + size⟩)

def amm (record_size : ℕ) (command : AmmMapCommand) : Recording :=
  r.extend record_size (some (.AmmMap { command with record_offset := r.offset })) r.gather

/-- A call that was accepted. -/
def append (call : AppendCall) : Recording :=
  match call with
  | .ReadFile file_id destination size file_offset =>
    r.readFile call.size file_id destination size file_offset
  | .ReadFileGather size file_offset =>
    r.gather.elim r fun g => r.readFile call.size g.file_id g.destination size file_offset
  | .ReadFileScatter destination size =>
    r.gather.elim r fun g => r.readFile call.size g.file_id destination size g.file_offset
  | .ReadFileGatherScatter destination size file_offset =>
    r.gather.elim r fun g => r.readFile call.size g.file_id destination size file_offset
  | .ResetGatherScatterState => r.extend call.size none none
  | .WriteKernelEventQueue eq id data =>
    r.extend call.size
      (some (.KernelEvent { record_offset := r.offset, eq, id := toInt32 id, data })) r.gather
  | .WriteAddress address value =>
    r.extend call.size (some (.WriteAddress { record_offset := r.offset, address, value }))
      r.gather
  | .WriteAddressFromCounter address =>
    r.extend call.size (some (.WriteAddress { record_offset := r.offset, address, value := 0 }))
      r.gather
  | .AmmMap va size type prot => r.amm call.size { kind := .MapAuto, va, size, type, prot }
  | .AmmMapWithGpuMaskId va size type prot gpu_mask_id =>
    r.amm call.size { kind := .MapAuto, va, size, type, prot, gpu_mask_id }
  | .AmmMapDirect va dmem_offset size type prot =>
    r.amm call.size { kind := .MapDirect, va, dmem_offset, size, type, prot }
  | .AmmMapDirectWithGpuMaskId va dmem_offset size type prot gpu_mask_id =>
    r.amm call.size { kind := .MapDirect, va, dmem_offset, size, type, prot, gpu_mask_id }
  | .AmmUnmap va size => r.amm call.size { kind := .Unmap, va, size }
  | .MapBegin .. | .MapDirectBegin .. | .MapEnd | .Nop _ | .NopWithData _ | .ConstructNop _
  | .ConstructMarker .. | .SetMarker _ | .SetMarkerWithColor _ | .PushMarker _
  | .PushMarkerWithColor _ | .PopMarker | .WaitOnAddress => r.extend call.size none r.gather

/-- The recording of a list of accepted calls. -/
def of (calls : List AppendCall) : Recording := calls.foldl append {}

@[simp] theorem of_concat (calls : List AppendCall) (call : AppendCall) :
    of (calls ++ [call]) = (of calls).append call := by
  unfold of
  rw [List.foldl_append]
  rfl

end Recording

end MagnusPS5.Ampr
