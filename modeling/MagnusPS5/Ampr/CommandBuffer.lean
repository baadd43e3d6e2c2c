/-
Command buffers of the asynchronous file service (`libAmpr.cpp`): the header that the
guest sees, the commands that the host keeps for it, and the calls on both.

A command buffer is known by the address of its header. The header holds the number of
bytes recorded and the record buffer; the commands themselves are host objects in
`g_command_buffers`, under the header's address, and `g_command_buffer_aliases` finds
the header of a record buffer. A recorded command is zeroed bytes in the record buffer
and an entry of one of four vectors.

Guest memory is a function from addresses to bytes. `nullptr` is address 0, and what a
call writes through an out-pointer is part of its result.
-/
import MagnusPS5.Lib.WordMemory
import Mathlib.Data.List.Sort

namespace MagnusPS5.Ampr

open Lib

/-! ## Constants -/

/-- The layout of a header. -/
abbrev COMMAND_BUFFER_TYPE_OFFSET : ℕ := 0x00
abbrev COMMAND_BUFFER_OFFSET_OFFSET : ℕ := 0x04
abbrev COMMAND_BUFFER_NUM_OFFSET : ℕ := 0x08
abbrev COMMAND_BUFFER_SIZE_OFFSET : ℕ := 0x0c
abbrev COMMAND_BUFFER_DATA_OFFSET : ℕ := 0x10
abbrev COMMAND_BUFFER_SIZE : ℕ := 0x18

abbrev COMMAND_BUFFER_SIZE_MAX : ℕ := 64 * 1024 * 1024

/-- The sizes of the records. -/
abbrev READ_FILE_RECORD_SIZE : ℕ := 0x14
abbrev READ_FILE_RECORD_SIZE_EXT : ℕ := 0x18
abbrev READ_GATHER_RECORD_SIZE : ℕ := 0x08
abbrev READ_GATHER_RECORD_SIZE_EXT : ℕ := 0x0c
abbrev READ_SCATTER_RECORD_SIZE : ℕ := 0x0c
abbrev READ_GATHER_SCATTER_SIZE : ℕ := 0x10
abbrev READ_GATHER_SCATTER_SIZE_EXT : ℕ := 0x14
abbrev RESET_GATHER_SCATTER_SIZE : ℕ := 0x04
abbrev KERNEL_EVENT_RECORD_SIZE : ℕ := 0x20
abbrev APR_MAP_BEGIN_RECORD_SIZE : ℕ := 0x0c
abbrev APR_MAP_DIRECT_BEGIN_SIZE : ℕ := 0x10
abbrev APR_MAP_END_RECORD_SIZE : ℕ := 0x04
abbrev AMM_MAP_RECORD_SIZE : ℕ := 0x20
abbrev AMM_MAP_DIRECT_RECORD_SIZE : ℕ := 0x30
abbrev AMM_UNMAP_RECORD_SIZE : ℕ := 0x20

abbrev AMM_PAGE_SIZE : ℕ := 0x4000
abbrev APR_MAX_READ_LENGTH : ℕ := 0x100000000
abbrev APR_MAX_FILE_OFFSET : ℕ := 0x10000000000
abbrev APR_MAX_APP_ADDRESS : ℕ := 0xf00000000000

abbrev APR_TYPE_GATHER_SCATTER_VALID : ℕ := 0x00010000
abbrev APR_TYPE_MAP_ACTIVE : ℕ := 0x00020000

/-- The largest value of `uint32_t` and of `uint64_t`. -/
abbrev UINT32_MAX : ℕ := 0xffffffff
abbrev UINT64_MAX : ℕ := 0xffffffffffffffff

/-- The error codes that the calls return. -/
inductive KernelError
  | KERNEL_ERROR_EPERM
  | KERNEL_ERROR_EFAULT
  | KERNEL_ERROR_EBUSY
  | KERNEL_ERROR_EINVAL
deriving DecidableEq

open KernelError

/-! ## The state of a command buffer -/

structure ReadFileCommand where
  record_offset : ℕ
  file_id : ℕ
  destination : ℕ
  size : ℕ
  file_offset : ℕ
deriving DecidableEq

structure KernelEventCommand where
  record_offset : ℕ
  eq : ℕ
  id : ℤ
  data : ℕ
deriving DecidableEq

structure WriteAddressCommand where
  record_offset : ℕ
  address : ℕ
  value : ℕ
deriving DecidableEq

inductive AmmCommandKind
  | MapAuto
  | MapDirect
  | Unmap
deriving DecidableEq

structure AmmMapCommand where
  record_offset : ℕ := 0
  kind : AmmCommandKind := .MapAuto
  va : ℕ := 0
  dmem_offset : ℕ := 0
  size : ℕ := 0
  type : ℤ := 0
  prot : ℤ := 0
  gpu_mask_id : ℕ := 0
deriving DecidableEq

structure CommandBufferState where
  buffer : ℕ := 0
  size : ℕ := 0
  write_offset : ℕ := 0
  header_validated : Bool := false
  buffer_validated : Bool := false
  read_file_commands : List ReadFileCommand := []
  kernel_event_commands : List KernelEventCommand := []
  write_address_commands : List WriteAddressCommand := []
  amm_map_commands : List AmmMapCommand := []
  gather_scatter_valid : Bool := false
  gather_scatter_file_id : ℕ := 0
  gather_scatter_destination : ℕ := 0
  gather_scatter_file_offset : ℕ := 0
deriving DecidableEq

/-- The command buffers: guest memory, and the tables of the host. -/
structure Buffers where
  memory : ℕ → UInt8
  g_command_buffers : ℕ → Option CommandBufferState
  g_command_buffer_aliases : ℕ → Option ℕ

/-- `g_command_buffers[command_buffer] = state`. -/
def Buffers.store (s : Buffers) (command_buffer : ℕ) (state : CommandBufferState) : Buffers :=
  { s with g_command_buffers := Function.update s.g_command_buffers command_buffer (some state) }

def isValidGuestRange (addr size : ℕ) : Bool :=
  size == 0 || (addr != 0 && decide (addr ≤ UINT64_MAX - size))

def hasQueuedCommands (state : CommandBufferState) : Bool :=
  !state.read_file_commands.isEmpty || !state.kernel_event_commands.isEmpty ||
    !state.write_address_commands.isEmpty || !state.amm_map_commands.isEmpty

/-! ## Aliases -/

variable (command_buffer : ℕ)

/-- The aliases of a command buffer are dropped. -/
def dropAliases (aliases : ℕ → Option ℕ) : ℕ → Option ℕ :=
  fun buffer => if aliases buffer = some command_buffer then none else aliases buffer

def registerCommandBufferAlias (command_buffer buffer : ℕ) (aliases : ℕ → Option ℕ) :
    ℕ → Option ℕ :=
  if buffer ≠ 0 ∧ buffer ≠ command_buffer then
    Function.update (dropAliases command_buffer aliases) buffer (some command_buffer)
  else dropAliases command_buffer aliases

def eraseCommandBufferState (s : Buffers) : Buffers :=
  { s with
    g_command_buffers := Function.update s.g_command_buffers command_buffer none
    g_command_buffer_aliases :=
      Function.update (dropAliases command_buffer s.g_command_buffer_aliases) command_buffer none }

/-! ## Headers and record buffers -/

def validateCommandBufferHeader : Bool :=
  isValidGuestRange command_buffer COMMAND_BUFFER_SIZE

/-- `ValidateCommandBufferHeader` with a state, which remembers the answer. -/
def CommandBufferState.validateHeader (state : CommandBufferState) : Bool × CommandBufferState :=
  if state.header_validated then (true, state)
  else if validateCommandBufferHeader command_buffer then
    (true, { state with header_validated := true })
  else (false, state)

def validateCommandBufferBacking (state : CommandBufferState) : Bool × CommandBufferState :=
  if state.buffer = 0 ∨ state.size = 0 then (false, state)
  else if state.buffer_validated then (true, state)
  else if isValidGuestRange state.buffer state.size then
    (true, { state with buffer_validated := true })
  else (false, state)

def loadCommandBufferStateFromGuest (memory : ℕ → UInt8) : Option CommandBufferState :=
  if validateCommandBufferHeader command_buffer then
    some
      { buffer := loadWord memory (command_buffer + COMMAND_BUFFER_DATA_OFFSET) 8
        size := loadWord memory (command_buffer + COMMAND_BUFFER_SIZE_OFFSET) 4
        write_offset := loadWord memory (command_buffer + COMMAND_BUFFER_OFFSET_OFFSET) 4
        header_validated := true }
  else none

/-- The state of a command buffer, in the table or as its header gives it. -/
def Buffers.view (s : Buffers) (command_buffer : ℕ) : Option CommandBufferState :=
  match s.g_command_buffers command_buffer with
  | some state => some state
  | none => loadCommandBufferStateFromGuest command_buffer s.memory

def getOrCreateCommandBufferState (s : Buffers) : Option (CommandBufferState × Buffers) :=
  match s.g_command_buffers command_buffer with
  | some state => some (state, s)
  | none => (loadCommandBufferStateFromGuest command_buffer s.memory).map fun state =>
    (state, s.store command_buffer state)

def ensureCommandBufferRecordSpace (state : CommandBufferState)
    (record_size : ℕ) : Bool × CommandBufferState :=
  if record_size = 0 then (false, state)
  else
    let validated := state.validateHeader command_buffer
    if validated.1 = false ∨ state.buffer = 0 ∨ state.size < record_size ∨
        state.size - record_size < state.write_offset then
      (false, validated.2)
    else validateCommandBufferBacking validated.2

def commitCommandBufferRecord (state : CommandBufferState)
    (record_size : ℕ) (memory : ℕ → UInt8) : Bool × CommandBufferState × (ℕ → UInt8) :=
  let state := { state with write_offset := state.write_offset + record_size }
  if UINT32_MAX < state.write_offset then (false, state, memory)
  else
    let memory := storeWord (command_buffer + COMMAND_BUFFER_OFFSET_OFFSET) 4
      state.write_offset memory
    let num := loadWord memory (command_buffer + COMMAND_BUFFER_NUM_OFFSET) 4
    (true, state, storeWord (command_buffer + COMMAND_BUFFER_NUM_OFFSET) 4 (num + 1) memory)

def updateCommandBufferTypeFlagsUnchecked (command_buffer set_bits clear_bits : ℕ)
    (memory : ℕ → UInt8) : ℕ → UInt8 :=
  let type := loadWord memory (command_buffer + COMMAND_BUFFER_TYPE_OFFSET) 4
  storeWord (command_buffer + COMMAND_BUFFER_TYPE_OFFSET) 4
    ((type ||| set_bits) &&& (UINT32_MAX ^^^ clear_bits)) memory

def updateCommandBufferTypeFlags (command_buffer set_bits clear_bits : ℕ) (s : Buffers) : Buffers :=
  if validateCommandBufferHeader command_buffer then
    { s with
      memory := updateCommandBufferTypeFlagsUnchecked command_buffer set_bits clear_bits s.memory }
  else s

/-- `ResolveCommandBufferStateLocked`: a header without commands of its own may be the
record buffer of another. -/
def resolveCommandBufferState (s : Buffers) : Option CommandBufferState :=
  let own := s.g_command_buffers command_buffer
  if own.any hasQueuedCommands then own
  else
    match s.g_command_buffer_aliases command_buffer with
    | none => own
    | some header =>
      match s.g_command_buffers header with
      | some state => some state
      | none => own

def tryGetCommandBufferState (s : Buffers) : Option (CommandBufferState × Buffers) :=
  match resolveCommandBufferState command_buffer s with
  | some state => some (state, s)
  | none => (loadCommandBufferStateFromGuest command_buffer s.memory).map fun state =>
    (state, s.store command_buffer state)

def writeVisibleCommandBufferPointers (command_buffer buffer size : ℕ) (s : Buffers) :
    Bool × Buffers :=
  if UINT32_MAX < size ∨ validateCommandBufferHeader command_buffer = false then (false, s)
  else
    (true,
      { s with
        memory := storeWord (command_buffer + COMMAND_BUFFER_SIZE_OFFSET) 4 size
          (storeWord (command_buffer + COMMAND_BUFFER_DATA_OFFSET) 8 buffer s.memory) })

/-- `WriteCommandBufferPointers`, with the write offset 0 that every caller passes. -/
def writeCommandBufferPointers (command_buffer buffer size : ℕ) (s : Buffers) : Bool × Buffers :=
  if UINT32_MAX < size ∨ validateCommandBufferHeader command_buffer = false then (false, s)
  else
    (true,
      { memory := storeWord (command_buffer + COMMAND_BUFFER_OFFSET_OFFSET) 4 0
          (storeWord (command_buffer + COMMAND_BUFFER_SIZE_OFFSET) 4 size
            (storeWord (command_buffer + COMMAND_BUFFER_DATA_OFFSET) 8 buffer s.memory))
        g_command_buffers := Function.update s.g_command_buffers command_buffer
          (some { buffer, size, header_validated := true })
        g_command_buffer_aliases :=
          registerCommandBufferAlias command_buffer buffer s.g_command_buffer_aliases })

/-! ## Records -/

/-- What the `Append*Record` functions share: the state of the command buffer, room for the
record, its bytes, its entry in a vector (`push`), the header, and what is left to do with
the state and the header (`finish`). -/
def appendRecord (command_buffer record_size : ℕ) (record : ℕ → UInt8)
    (push : ℕ → CommandBufferState → CommandBufferState)
    (finish : CommandBufferState → (ℕ → UInt8) → Bool × CommandBufferState × (ℕ → UInt8))
    (s : Buffers) : Bool × Buffers :=
  match getOrCreateCommandBufferState command_buffer s with
  | none => (false, s)
  | some (state, s) =>
    let ensured := ensureCommandBufferRecordSpace command_buffer state record_size
    if ensured.1 = false then (false, s.store command_buffer ensured.2)
    else
      let record_offset := ensured.2.write_offset
      let memory := copyBlock record 0 (ensured.2.buffer + record_offset) record_size s.memory
      let committed := commitCommandBufferRecord command_buffer
        (push record_offset ensured.2) record_size memory
      if committed.1 = false then
        (false, { s with memory := committed.2.2 }.store command_buffer committed.2.1)
      else
        let finished := finish committed.2.1 committed.2.2
        (finished.1, { s with memory := finished.2.2 }.store command_buffer finished.2.1)

/-- Nothing is left to do. -/
def committedOnly (state : CommandBufferState) (memory : ℕ → UInt8) :
    Bool × CommandBufferState × (ℕ → UInt8) :=
  (true, state, memory)

def addU64 (a b : ℕ) : Option ℕ := if UINT64_MAX - a < b then none else some (a + b)

/-- `AppendReadFileRecord` after the record: where a gather or scatter read goes on. -/
def continueGatherScatter (command_buffer file_id destination size file_offset : ℕ)
    (state : CommandBufferState) (memory : ℕ → UInt8) : Bool × CommandBufferState × (ℕ → UInt8) :=
  let state := { state with gather_scatter_valid := true, gather_scatter_file_id := file_id }
  match addU64 destination size with
  | none => (false, { state with gather_scatter_valid := false }, memory)
  | some next_destination =>
    let state := { state with gather_scatter_destination := next_destination }
    match addU64 file_offset size with
    | none => (false, { state with gather_scatter_valid := false }, memory)
    | some next_offset =>
      (true, { state with gather_scatter_file_offset := next_offset },
        updateCommandBufferTypeFlagsUnchecked command_buffer APR_TYPE_GATHER_SCATTER_VALID 0
          memory)

def appendReadFileRecord (opcode : UInt8)
    (file_id destination size file_offset record_size : ℕ) (s : Buffers) : Bool × Buffers :=
  appendRecord command_buffer record_size (fun i => if i = 0 then opcode else 0)
    (fun record_offset state =>
      { state with
        read_file_commands := state.read_file_commands ++
          [{ record_offset, file_id, destination, size, file_offset }] })
    (continueGatherScatter command_buffer file_id destination size file_offset) s

def appendKernelEventRecord (command_buffer eq : ℕ) (id : ℤ) (data : ℕ) (s : Buffers) :
    Bool × Buffers :=
  appendRecord command_buffer KERNEL_EVENT_RECORD_SIZE
    (storeWord 0x18 8 data (storeWord 0x10 4 (id % 0x100000000).toNat (storeWord 0x08 8 eq
      (storeWord 0x00 4 2 fun _ => 0))))
    (fun record_offset state =>
      { state with
        kernel_event_commands := state.kernel_event_commands ++ [{ record_offset, eq, id, data }] })
    committedOnly s

def appendWriteAddressRecord (command_buffer address value record_size : ℕ) (s : Buffers) :
    Bool × Buffers :=
  appendRecord command_buffer record_size (fun _ => 0)
    (fun record_offset state =>
      { state with
        write_address_commands := state.write_address_commands ++
          [{ record_offset, address, value }] })
    committedOnly s

def appendAmmMapRecord (cmd : AmmMapCommand) (record_size : ℕ) (s : Buffers) : Bool × Buffers :=
  appendRecord command_buffer record_size (fun _ => 0)
    (fun record_offset state =>
      { state with amm_map_commands := state.amm_map_commands ++ [{ cmd with record_offset }] })
    committedOnly s

def advanceCommandBuffer (command_buffer record_size : ℕ) (s : Buffers) : Bool × Buffers :=
  appendRecord command_buffer record_size (fun _ => 0) (fun _ state => state) committedOnly s

/-! ## Checks of the arguments -/

variable (file_offset : ℕ)

def isValidAprFileOffset : Bool := decide (file_offset < APR_MAX_FILE_OFFSET)

def isValidAprReadSize (size : ℕ) : Bool := size != 0 && decide (size ≤ APR_MAX_READ_LENGTH)

def isValidAprReadRange (destination size : ℕ) : Bool :=
  isValidAprReadSize size && decide (destination ≤ APR_MAX_APP_ADDRESS) &&
    decide (size ≤ APR_MAX_APP_ADDRESS - destination)

def validateAmmMapArgs (va size : ℕ) : Bool :=
  va != 0 && size != 0 && va % AMM_PAGE_SIZE == 0 && size % AMM_PAGE_SIZE == 0 &&
    decide (va ≤ (va + size) % 0x10000000000000000)

def aprReadFileRecordSize : ℕ :=
  if file_offset / 0x100000000 ≠ 0 then READ_FILE_RECORD_SIZE_EXT else READ_FILE_RECORD_SIZE

def aprReadGatherRecordSize : ℕ :=
  if 0x3ffff < file_offset then READ_GATHER_RECORD_SIZE_EXT else READ_GATHER_RECORD_SIZE

def aprReadGatherScatterRecordSize : ℕ :=
  if file_offset / 0x100000000 ≠ 0 then READ_GATHER_SCATTER_SIZE_EXT
  else READ_GATHER_SCATTER_SIZE

def alignUp4 (value : ℕ) : ℕ := (value + 3) / 4 * 4

variable (msg : Option (List UInt8))

/-- `MarkerCommandSize`; a message is its bytes, without the zero at the end. -/
def markerCommandSize (with_color : Bool) : ℕ :=
  alignUp4 ((if with_color then 8 else 4) + msg.elim 0 fun text => text.length + 1)

/-- `static_cast<int32_t>` of a 64-bit value. -/
def toInt32 (value : ℕ) : ℤ := (BitVec.ofNat 32 value).toInt

/-! ## Calls that append -/

/-- What a call returns, and the command buffers behind it. -/
abbrev Reply := Except KernelError Unit × Buffers

/-- `OK` or an error code, for the answer of a record function. -/
def returned (error : KernelError) (r : Bool × Buffers) : Reply :=
  (if r.1 then .ok () else .error error, r.2)

def appendNoOpCommand (command_buffer size : ℕ) (s : Buffers) : Reply :=
  if command_buffer = 0 then (.error KERNEL_ERROR_EINVAL, s)
  else returned KERNEL_ERROR_EFAULT (advanceCommandBuffer command_buffer (alignUp4 size) s)

def commandBufferWriteKernelEventQueue (command_buffer eq id data : ℕ) (s : Buffers) : Reply :=
  if command_buffer = 0 then (.error KERNEL_ERROR_EINVAL, s)
  else returned KERNEL_ERROR_EFAULT
    (appendKernelEventRecord command_buffer eq (toInt32 id) data s)

def commandBufferNop (command_buffer num_u32 : ℕ) (s : Buffers) : Reply :=
  if num_u32 = 0 ∨ 16 < num_u32 then (.error KERNEL_ERROR_EINVAL, s)
  else appendNoOpCommand command_buffer (num_u32 * 4) s

def commandBufferNopWithData (command_buffer num_u32 : ℕ) (s : Buffers) : Reply :=
  if 15 < num_u32 then (.error KERNEL_ERROR_EINVAL, s)
  else appendNoOpCommand command_buffer ((num_u32 + 1) * 4) s

def commandBufferConstructNop (command_buffer bytes : ℕ) (s : Buffers) : Reply :=
  appendNoOpCommand command_buffer (4 + bytes) s

/-- `CommandBufferConstructMarker`, and with a constant for `with_color` the calls that
set or push a marker. -/
def commandBufferConstructMarker (with_color : Bool) (s : Buffers) : Reply :=
  appendNoOpCommand command_buffer (markerCommandSize msg with_color) s

def commandBufferSetMarker (s : Buffers) : Reply :=
  commandBufferConstructMarker command_buffer msg false s

def commandBufferSetMarkerWithColor (s : Buffers) : Reply :=
  commandBufferConstructMarker command_buffer msg true s

def commandBufferPushMarker (s : Buffers) : Reply :=
  commandBufferConstructMarker command_buffer msg false s

def commandBufferPushMarkerWithColor (s : Buffers) : Reply :=
  commandBufferConstructMarker command_buffer msg true s

def commandBufferPopMarker (s : Buffers) : Reply :=
  appendNoOpCommand command_buffer 4 s

/-- `CommandBufferWaitOnAddress`, `WaitOnCounter`, `WriteCounter` and
`WriteCounterOnCompletion`: 32 bytes that nothing executes. -/
def commandBufferWaitOnAddress (s : Buffers) : Reply :=
  appendNoOpCommand command_buffer 0x20 s

def appendWriteAddressCommand (command_buffer address value : ℕ) (s : Buffers) : Reply :=
  if command_buffer = 0 ∨ address = 0 then (.error KERNEL_ERROR_EINVAL, s)
  else returned KERNEL_ERROR_EBUSY (appendWriteAddressRecord command_buffer address value 0x20 s)

/-- `CommandBufferWriteAddress` and `WriteAddressOnCompletion`. -/
def commandBufferWriteAddress (command_buffer address value : ℕ) (s : Buffers) : Reply :=
  appendWriteAddressCommand command_buffer address value s

/-- `CommandBufferWriteAddressFromTimeCounter`, `FromCounter`, `FromCounterPair`, and the three
with `OnCompletion`. -/
def commandBufferWriteAddressFromCounter (command_buffer address : ℕ) (s : Buffers) : Reply :=
  appendWriteAddressCommand command_buffer address 0 s

def aprCommandBufferReadFile (command_buffer file_id destination size file_offset : ℕ)
    (s : Buffers) : Reply :=
  if command_buffer = 0 ∨ isValidAprReadRange destination size = false ∨
      isValidAprFileOffset file_offset = false then
    (.error KERNEL_ERROR_EINVAL, s)
  else returned KERNEL_ERROR_EFAULT
    (appendReadFileRecord command_buffer 0x17 file_id destination size file_offset
      (aprReadFileRecordSize file_offset) s)

def aprCommandBufferReadFileGather (command_buffer size file_offset : ℕ) (s : Buffers) : Reply :=
  if command_buffer = 0 ∨ isValidAprReadSize size = false ∨
      isValidAprFileOffset file_offset = false then
    (.error KERNEL_ERROR_EINVAL, s)
  else
    match tryGetCommandBufferState command_buffer s with
    | none => (.error KERNEL_ERROR_EFAULT, s)
    | some (state, s) =>
      if state.gather_scatter_valid = false ∨
          isValidAprReadRange state.gather_scatter_destination size = false then
        (.error KERNEL_ERROR_EINVAL, s)
      else returned KERNEL_ERROR_EFAULT
        (appendReadFileRecord command_buffer 0x18 state.gather_scatter_file_id
          state.gather_scatter_destination size file_offset
          (aprReadGatherRecordSize file_offset) s)

def aprCommandBufferReadFileScatter (command_buffer destination size : ℕ) (s : Buffers) : Reply :=
  if command_buffer = 0 ∨ isValidAprReadRange destination size = false then
    (.error KERNEL_ERROR_EINVAL, s)
  else
    match tryGetCommandBufferState command_buffer s with
    | none => (.error KERNEL_ERROR_EFAULT, s)
    | some (state, s) =>
      if state.gather_scatter_valid = false ∨
          isValidAprFileOffset state.gather_scatter_file_offset = false then
        (.error KERNEL_ERROR_EINVAL, s)
      else returned KERNEL_ERROR_EFAULT
        (appendReadFileRecord command_buffer 0x19 state.gather_scatter_file_id destination size
          state.gather_scatter_file_offset READ_SCATTER_RECORD_SIZE s)

def aprCommandBufferReadFileGatherScatter (command_buffer destination size file_offset : ℕ)
    (s : Buffers) : Reply :=
  if command_buffer = 0 ∨ isValidAprReadRange destination size = false ∨
      isValidAprFileOffset file_offset = false then
    (.error KERNEL_ERROR_EINVAL, s)
  else
    match tryGetCommandBufferState command_buffer s with
    | none => (.error KERNEL_ERROR_EFAULT, s)
    | some (state, s) =>
      if state.gather_scatter_valid = false then (.error KERNEL_ERROR_EINVAL, s)
      else returned KERNEL_ERROR_EFAULT
        (appendReadFileRecord command_buffer 0x1a state.gather_scatter_file_id destination size
          file_offset (aprReadGatherScatterRecordSize file_offset) s)

/-- The state after `AprCommandBufferResetGatherScatterState`. -/
def CommandBufferState.resetGatherScatter (state : CommandBufferState) : CommandBufferState :=
  { state with
    gather_scatter_valid := false
    gather_scatter_file_id := 0
    gather_scatter_destination := 0
    gather_scatter_file_offset := 0 }

def aprCommandBufferResetGatherScatterState (s : Buffers) : Reply :=
  if command_buffer = 0 then (.error KERNEL_ERROR_EINVAL, s)
  else
    let appended := appendNoOpCommand command_buffer RESET_GATHER_SCATTER_SIZE s
    if appended.1 ≠ .ok () then (.error KERNEL_ERROR_EFAULT, appended.2)
    else
      let s := match appended.2.g_command_buffers command_buffer with
        | some state => appended.2.store command_buffer state.resetGatherScatter
        | none => appended.2
      (.ok (), updateCommandBufferTypeFlags command_buffer 0 APR_TYPE_GATHER_SCATTER_VALID s)

/-- What `AprCommandBufferMapBegin` and `MapDirectBegin` share. -/
def appendMapBegin (command_buffer record_size : ℕ) (valid : Bool) (s : Buffers) : Reply :=
  if command_buffer = 0 ∨ valid = false then (.error KERNEL_ERROR_EINVAL, s)
  else
    let appended := appendNoOpCommand command_buffer record_size s
    if appended.1 ≠ .ok () then (.error KERNEL_ERROR_EFAULT, appended.2)
    else (.ok (), updateCommandBufferTypeFlags command_buffer APR_TYPE_MAP_ACTIVE 0 appended.2)

def aprCommandBufferMapBegin (command_buffer va size : ℕ) (s : Buffers) : Reply :=
  appendMapBegin command_buffer APR_MAP_BEGIN_RECORD_SIZE (validateAmmMapArgs va size) s

def aprCommandBufferMapDirectBegin (command_buffer va dmem_offset size : ℕ) (s : Buffers) : Reply :=
  appendMapBegin command_buffer APR_MAP_DIRECT_BEGIN_SIZE
    (validateAmmMapArgs va size && dmem_offset % AMM_PAGE_SIZE == 0) s

def aprCommandBufferMapEnd (s : Buffers) : Reply :=
  if command_buffer = 0 then (.error KERNEL_ERROR_EPERM, s)
  else if isValidGuestRange (command_buffer + COMMAND_BUFFER_TYPE_OFFSET) 4 = false then
    (.error KERNEL_ERROR_EFAULT, s)
  else if loadWord s.memory (command_buffer + COMMAND_BUFFER_TYPE_OFFSET) 4 &&&
      APR_TYPE_MAP_ACTIVE = 0 then
    (.error KERNEL_ERROR_EPERM, s)
  else
    let appended := appendNoOpCommand command_buffer APR_MAP_END_RECORD_SIZE s
    if appended.1 ≠ .ok () then (.error KERNEL_ERROR_EFAULT, appended.2)
    else (.ok (), updateCommandBufferTypeFlags command_buffer 0 APR_TYPE_MAP_ACTIVE appended.2)

/-- What the calls that append a mapping share: the checks, and the record. -/
def appendAmmMap (valid : Bool) (command : AmmMapCommand) (record_size : ℕ) (s : Buffers) : Reply :=
  if command_buffer = 0 ∨ valid = false then (.error KERNEL_ERROR_EINVAL, s)
  else returned KERNEL_ERROR_EBUSY (appendAmmMapRecord command_buffer command record_size s)

def ammCommandBufferMap (command_buffer va size : ℕ) (type prot : ℤ) (s : Buffers) : Reply :=
  appendAmmMap command_buffer (validateAmmMapArgs va size)
    { kind := .MapAuto, va, size, type, prot } AMM_MAP_RECORD_SIZE s

def ammCommandBufferMapWithGpuMaskId (command_buffer va size : ℕ) (type prot : ℤ)
    (gpu_mask_id : ℕ) (s : Buffers) : Reply :=
  appendAmmMap command_buffer (validateAmmMapArgs va size)
    { kind := .MapAuto, va, size, type, prot, gpu_mask_id } AMM_MAP_RECORD_SIZE s

def ammCommandBufferMapDirect (command_buffer va dmem_offset size : ℕ) (type prot : ℤ)
    (s : Buffers) : Reply :=
  appendAmmMap command_buffer (validateAmmMapArgs va size && dmem_offset % AMM_PAGE_SIZE == 0)
    { kind := .MapDirect, va, dmem_offset, size, type, prot } AMM_MAP_DIRECT_RECORD_SIZE s

def ammCommandBufferMapDirectWithGpuMaskId (command_buffer va dmem_offset size : ℕ)
    (type prot : ℤ) (gpu_mask_id : ℕ) (s : Buffers) : Reply :=
  appendAmmMap command_buffer (validateAmmMapArgs va size && dmem_offset % AMM_PAGE_SIZE == 0)
    { kind := .MapDirect, va, dmem_offset, size, type, prot, gpu_mask_id }
    AMM_MAP_DIRECT_RECORD_SIZE s

def ammCommandBufferUnmap (command_buffer va size : ℕ) (s : Buffers) : Reply :=
  appendAmmMap command_buffer (validateAmmMapArgs va size) { kind := .Unmap, va, size }
    AMM_UNMAP_RECORD_SIZE s

/-! ## Calls on the whole buffer -/

/-- `CommandBufferConstructor`, through `InitializeBaseCommandBuffer`. -/
def commandBufferConstructor (s : Buffers) : Reply :=
  if command_buffer = 0 then (.ok (), s)
  else if isValidGuestRange command_buffer COMMAND_BUFFER_SIZE = false then
    (.error KERNEL_ERROR_EFAULT, s)
  else
    (.ok (), eraseCommandBufferState command_buffer
      { s with memory := copyBlock (fun _ => 0) 0 command_buffer COMMAND_BUFFER_SIZE s.memory })

def commandBufferDestructor (s : Buffers) : Reply :=
  if command_buffer = 0 then (.ok (), s)
  else (.ok (), eraseCommandBufferState command_buffer s)

/-- `COMMAND_BUFFER_NUM_OFFSET` is set to 0. -/
def resetNum (s : Buffers) : Buffers :=
  { s with memory := storeWord (command_buffer + COMMAND_BUFFER_NUM_OFFSET) 4 0 s.memory }

def commandBufferSetBuffer (command_buffer buffer size : ℕ) (s : Buffers) : Reply :=
  if command_buffer = 0 then (.error KERNEL_ERROR_EINVAL, s)
  else if validateCommandBufferHeader command_buffer = false then (.error KERNEL_ERROR_EFAULT, s)
  else if buffer = 0 ∨ buffer % 4 ≠ 0 ∨ size = 0 ∨ COMMAND_BUFFER_SIZE_MAX < size ∨
      size % 4 ≠ 0 then
    (.error KERNEL_ERROR_EINVAL, s)
  else if loadWord s.memory (command_buffer + COMMAND_BUFFER_DATA_OFFSET) 8 ≠ 0 then
    (.error KERNEL_ERROR_EBUSY, s)
  else
    let written := writeCommandBufferPointers command_buffer buffer size s
    if written.1 = false then (.error KERNEL_ERROR_EFAULT, written.2)
    else (.ok (), resetNum command_buffer written.2)

def commandBufferReset (s : Buffers) : Reply :=
  if command_buffer = 0 then (.error KERNEL_ERROR_EPERM, s)
  else
    match tryGetCommandBufferState command_buffer s with
    | none => (.error KERNEL_ERROR_EFAULT, s)
    | some (state, s) =>
      if state.buffer = 0 then (.error KERNEL_ERROR_EPERM, s)
      else
        let written := writeCommandBufferPointers command_buffer state.buffer state.size s
        if written.1 = false then (.error KERNEL_ERROR_EFAULT, written.2)
        else (.ok (), resetNum command_buffer written.2)

/-- `CommandBufferClearBuffer` returns the record buffer, or `nullptr`. -/
def commandBufferClearBuffer (s : Buffers) : ℕ × Buffers :=
  if command_buffer = 0 then (0, s)
  else if validateCommandBufferHeader command_buffer = false then (0, s)
  else
    let buffer := loadWord s.memory (command_buffer + COMMAND_BUFFER_DATA_OFFSET) 8
    let size := loadWord s.memory (command_buffer + COMMAND_BUFFER_SIZE_OFFSET) 4
    if buffer = 0 ∨ size = 0 then (0, s)
    else
      let written := writeVisibleCommandBufferPointers command_buffer 0 0 s
      if written.1 = false then (0, written.2)
      else (buffer, eraseCommandBufferState command_buffer written.2)

/-- `CommandBufferGetSize` and `CommandBufferGetCurrentOffset` on a header that can be read. -/
def commandBufferGetSize (s : Buffers) : ℕ :=
  loadWord s.memory (command_buffer + COMMAND_BUFFER_SIZE_OFFSET) 4

def commandBufferGetCurrentOffset (s : Buffers) : ℕ :=
  loadWord s.memory (command_buffer + COMMAND_BUFFER_OFFSET_OFFSET) 4

/-! ## Submissions -/

/-- A command of any of the four vectors. -/
inductive Command
  | ReadFile (command : ReadFileCommand)
  | KernelEvent (command : KernelEventCommand)
  | WriteAddress (command : WriteAddressCommand)
  | AmmMap (command : AmmMapCommand)
deriving DecidableEq

def Command.record_offset : Command → ℕ
  | .ReadFile command => command.record_offset
  | .KernelEvent command => command.record_offset
  | .WriteAddress command => command.record_offset
  | .AmmMap command => command.record_offset

/-- The commands of the four vectors, one vector after the other. -/
def CommandBufferState.queued (state : CommandBufferState) : List Command :=
  state.read_file_commands.map .ReadFile ++ (state.kernel_event_commands.map .KernelEvent ++
    (state.write_address_commands.map .WriteAddress ++ state.amm_map_commands.map .AmmMap))

/-- `ordered` of `ExecuteAprCommandBuffer`: the commands below the write offset, sorted by
their record offsets. -/
def CommandBufferState.ordered (state : CommandBufferState) : List Command :=
  (state.queued.filter fun command =>
      decide (command.record_offset < state.write_offset)).insertionSort
    fun a b => a.record_offset ≤ b.record_offset

/-- What a submission did: its own answer, the commands that were executed, and the result
and the offset that it reports. -/
structure Submission where
  result : Except KernelError Unit
  executed : List Command := []
  execution_result : ℤ := 0
  error_offset : ℕ := 0

/-- The loop of `ExecuteAprCommandBuffer`. `outcome` is what each command returns; 0 is `OK`. -/
def executeOrdered (outcome : Command → ℤ) : List Command → Submission
  | [] => { result := .ok () }
  | command :: rest =>
    if outcome command = 0 then
      let submission := executeOrdered outcome rest
      { submission with executed := command :: submission.executed }
    else
      { result := .ok ()
        executed := [command]
        execution_result := outcome command
        error_offset := command.record_offset % 0x100000000 }

def executeAprCommandBuffer (outcome : Command → ℤ) (command_buffer : ℕ) (s : Buffers) :
    Submission × Buffers :=
  match tryGetCommandBufferState command_buffer s with
  | none => ({ result := .error KERNEL_ERROR_EFAULT }, s)
  | some (state, s) => (executeOrdered outcome state.ordered, s)

/-- The submit calls, of which some report more of the submission than others. -/
def submitCommandBuffer (outcome : Command → ℤ) (command_buffer : ℕ) (s : Buffers) :
    Submission × Buffers :=
  if command_buffer = 0 then ({ result := .error KERNEL_ERROR_EINVAL }, s)
  else executeAprCommandBuffer outcome command_buffer s

end MagnusPS5.Ampr
