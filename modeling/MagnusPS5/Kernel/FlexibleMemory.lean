/-
`FlexibleMemory` (`memory.cpp`): memory whose backing is the part of the backing store
behind the direct memory.

`m_allocated` is a vector in the order of the virtual addresses, `m_free` an ordered map
from the start of a free backing range to its size. Of the calls only `Protect` is here,
which splits the blocks at both ends of its interval.
-/
import MagnusPS5.Kernel.AddressSpace
import MagnusPS5.Kernel.PhysicalMemory

namespace MagnusPS5.Kernel

open Lib

structure FlexibleMemory.AllocatedBlock where
  map_vaddr : ℕ
  map_size : ℕ
  backing_offset : ℕ
  host_vaddr : ℕ
  host_size : ℕ
  prot : Flags
  mode : Mode
  gpu_mode : GpuAccessMode
  name : CString
  deriving DecidableEq

structure FlexibleMemory where
  m_allocated : List FlexibleMemory.AllocatedBlock
  m_free : List Run
  m_allocated_total : ℕ
  deriving DecidableEq

namespace FlexibleMemory

variable (flexible_memory_size : ℕ)

/-- The constructor. -/
def init : FlexibleMemory :=
  { m_allocated := []
    m_free := [⟨PhysicalMemory.Size flexible_memory_size, flexible_memory_size⟩]
    m_allocated_total := 0 }

variable (block : AllocatedBlock)

/-- The part of a block before an interval. -/
def leftPart (overlap_start : ℕ) : List AllocatedBlock :=
  if block.map_vaddr < overlap_start then
    [{ block with map_size := overlap_start - block.map_vaddr }]
  else []

/-- The part of a block behind an interval. -/
def rightPart (overlap_end : ℕ) : List AllocatedBlock :=
  let block_end := block.map_vaddr + block.map_size
  if overlap_end < block_end then
    [{ block with
      map_vaddr := overlap_end
      map_size := block_end - overlap_end
      backing_offset := block.backing_offset + overlap_end - block.map_vaddr }]
  else []

/-- The part of a block in an interval, with the new protection. -/
def middlePart (overlap_start overlap_end : ℕ) (prot : Flags)
    (mode : Mode) (gpu_mode : GpuAccessMode) : AllocatedBlock :=
  { block with
    map_vaddr := overlap_start
    map_size := overlap_end - overlap_start
    backing_offset := block.backing_offset + overlap_start - block.map_vaddr
    prot
    mode
    gpu_mode }

/-- What the loop of `Protect` makes of one block. -/
def protectBlock (vaddr size : ℕ) (prot : Flags) (mode : Mode) (gpu_mode : GpuAccessMode)
    (block : AllocatedBlock) : List AllocatedBlock :=
  if virtualRangesOverlap vaddr size block.map_vaddr block.map_size = false then [block]
  else
    let overlap_start := max vaddr block.map_vaddr
    let overlap_end := min (vaddr + size) (block.map_vaddr + block.map_size)
    leftPart block overlap_start ++
      [middlePart block overlap_start overlap_end prot mode gpu_mode] ++
      rightPart block overlap_end

def protect (m : FlexibleMemory) (vaddr size : ℕ) (prot : Flags) (mode : Mode)
    (gpu_mode : GpuAccessMode) : FlexibleMemory :=
  if size = 0 ∨ UINT64_MAX - vaddr < size then m
  else
    { m with m_allocated := m.m_allocated.flatMap (protectBlock vaddr size prot mode gpu_mode) }

end FlexibleMemory

end MagnusPS5.Kernel
