/-
`PhysicalMemory` (`memory.cpp`): the allocator of direct memory.

`m_free` and `m_physical` are ordered maps keyed by the start of a block; they are
lists in key order here, and an iterator is the pair of the entries before it and
from it on. The size of the physical memory is `TotalSize()` less the configured
flexible memory, which is a parameter. A call that runs into an `EXIT_IF` has no
result: `alloc` returns `none`.
-/
import MagnusPS5.Lib.Runs
import MagnusPS5.Lib.Walk
import MagnusPS5.Kernel.Basic

namespace MagnusPS5.Kernel

open Lib
open Spanned (lo hi)
open Nat

/-- `GetAlignedPos`: the first multiple of the alignment from `pos` on, if it is a
64-bit number. An alignment of zero asks for nothing. -/
def getAlignedPos (pos alignment : ℕ) : Option ℕ :=
  if alignment = 0 then some pos
  else
    let remainder := pos % alignment
    let increment := if remainder ≠ 0 then alignment - remainder else 0
    if UINT64_MAX - pos < increment then none else some (pos + increment)

/-- The address meets the alignment. -/
def Aligned (alignment a : ℕ) : Prop := alignment ≠ 0 → alignment ∣ a

theorem increment_spec (pos : ℕ) {alignment : ℕ} (h0 : alignment ≠ 0) :
    alignment ∣ pos + (if pos % alignment ≠ 0 then alignment - pos % alignment else 0) ∧
      ∀ b, pos ≤ b → alignment ∣ b →
        pos + (if pos % alignment ≠ 0 then alignment - pos % alignment else 0) ≤ b := by
  have hdiv := div_add_mod pos alignment
  have hlt := mod_lt pos (pos_of_ne_zero h0)
  by_cases hrem : pos % alignment = 0
  · rw [if_neg (not_not.mpr hrem), add_zero]
    exact ⟨dvd_of_mod_eq_zero hrem, fun b hb _ => hb⟩
  · rw [if_pos hrem]
    -- the next multiple is one quotient further
    have hnext : pos + (alignment - pos % alignment) = alignment * (pos / alignment + 1) := by
      rw [mul_add, mul_one]
      omega
    rw [hnext]
    refine ⟨dvd_mul_right _ _, ?_⟩
    rintro b hb ⟨k, rfl⟩
    apply Nat.mul_le_mul_left
    by_contra hk
    have hmul := mul_le_mul_left alignment (show k ≤ pos / alignment by omega)
    omega

theorem getAlignedPos_some {pos alignment a : ℕ} (h : getAlignedPos pos alignment = some a) :
    pos ≤ a ∧ Aligned alignment a ∧ ∀ b, pos ≤ b → Aligned alignment b → a ≤ b := by
  unfold getAlignedPos at h
  by_cases h0 : alignment = 0
  · rw [if_pos h0] at h
    cases h
    exact ⟨le_refl _, fun hne => absurd h0 hne, fun b hb _ => hb⟩
  · rw [if_neg h0] at h
    obtain ⟨hdvd, hleast⟩ := increment_spec pos h0
    obtain ⟨-, ha⟩ := Option.ite_none_left_eq_some.mp h
    cases ha
    exact ⟨le_add_right _ _, fun _ => hdvd, fun b hb hal => hleast b hb (hal h0)⟩

theorem getAlignedPos_none {pos alignment : ℕ} (h : getAlignedPos pos alignment = none) {b : ℕ}
    (hb : pos ≤ b) (hal : Aligned alignment b) : UINT64_MAX < b := by
  unfold getAlignedPos at h
  by_cases h0 : alignment = 0
  · rw [if_pos h0] at h
    nomatch h
  · rw [if_neg h0] at h
    have hleast := (increment_spec pos h0).2 b hb (hal h0)
    have hover : UINT64_MAX - pos <
        (if pos % alignment ≠ 0 then alignment - pos % alignment else 0) := by
      by_contra hno
      simp only [if_neg hno] at h
      nomatch h
    omega

abbrev TotalSize : ℕ := 13824 * 1024 * 1024

structure AllocatedBlock where
  start_addr : ℕ
  size : ℕ
  map_vaddr : ℕ
  map_size : ℕ
  host_vaddr : ℕ
  host_size : ℕ
  prot : Flags
  mode : Mode
  gpu_mode : GpuAccessMode
  memory_type : ℤ
  pool_expansion : Bool
  name : CString
  deriving DecidableEq

instance : Spanned AllocatedBlock where
  lo b := b.start_addr
  hi b := b.start_addr + b.size

/-- `PhysicalMemory`. The blocks of `m_physical` are keyed by their `start_addr`. -/
structure PhysicalMemory where
  m_physical : List AllocatedBlock
  m_free : List Run
  m_mappings : List AllocatedBlock
  deriving DecidableEq

namespace PhysicalMemory

def Size (flexible_memory_size : ℕ) : ℕ := TotalSize - flexible_memory_size

/-- The constructor. -/
def init (flexible_memory_size : ℕ) : PhysicalMemory :=
  { m_physical := [], m_free := [⟨0, Size flexible_memory_size⟩], m_mappings := [] }

/-- `ConsumeFreeRange`, at the iterator between `before` and `after`. -/
def consumeFreeRange (before : List Run) (range : Run) (after : List Run) (start size : ℕ) :
    List Run :=
  takeRun before range after start size

def addFreeRange (m_free : List Run) (start size : ℕ) : List Run := addRun m_free start size

/-- The loop of `Alloc`: the first free block, from the iterator on, whose part in
the window holds `len` bytes from an aligned address, with that address. -/
def allocLoop (search_start search_end len alignment : ℕ) (before : List Run) :
    List Run → Option (List Run × Run × List Run × ℕ)
  | [] => none
  | range :: after =>
    if search_end ≤ range.start then none
    else
      let range_end := min (range.start + range.size) search_end
      let lower_bound := max range.start search_start
      match getAlignedPos lower_bound alignment with
      | none => allocLoop search_start search_end len alignment (before ++ [range]) after
      | some free_pos =>
        if free_pos < lower_bound ∨ range_end < free_pos ∨ range_end - free_pos < len then
          allocLoop search_start search_end len alignment (before ++ [range]) after
        else some (before, range, after, free_pos)

/-- The search of `Alloc`: it starts from the last free block that begins at or before
the window, or from the first one. -/
def allocSearch (m_free : List Run) (search_start search_end len alignment : ℕ) :
    Option (List Run × Run × List Run × ℕ) :=
  let passed := m_free.takeWhile fun r => r.start ≤ search_start
  let ahead := m_free.dropWhile fun r => r.start ≤ search_start
  match passed.getLast? with
  | some range => allocLoop search_start search_end len alignment passed.dropLast (range :: ahead)
  | none => allocLoop search_start search_end len alignment [] ahead

variable (flexible_memory_size : ℕ) (m : PhysicalMemory)

def alloc (search_start search_end len alignment : ℕ) (memory_type : ℤ)
    (pool_expansion : Bool) : Option (Option ℕ × PhysicalMemory) :=
  let search_end := min search_end (Size flexible_memory_size)
  if search_end ≤ search_start then some (none, m)
  else
    match allocSearch m.m_free search_start search_end len alignment with
    | none => some (none, m)
    | some (before, range, after, free_pos) =>
      let b : AllocatedBlock :=
        { start_addr := free_pos, size := len, map_vaddr := 0, map_size := 0, host_vaddr := 0,
          host_size := 0, prot := 0, mode := .noAccess, gpu_mode := .noAccess, memory_type,
          pool_expansion, name := [] }
      if m.m_physical.any fun c => c.start_addr = free_pos then none
      else some (some free_pos,
        { m with
          m_free := consumeFreeRange before range after free_pos len
          m_physical := place b m.m_physical })

/-- The loop of `Available`: the largest aligned part of a free block in the window,
and the first block that has it. -/
def availableLoop (search_start search_end alignment : ℕ) (best_addr best_size : ℕ) :
    List Run → ℕ × ℕ
  | [] => (best_addr, best_size)
  | range :: rest =>
    if search_end ≤ range.start then (best_addr, best_size)
    else
      let range_end := min (range.start + range.size) search_end
      let lower_bound := max range.start search_start
      match getAlignedPos lower_bound alignment with
      | none => availableLoop search_start search_end alignment best_addr best_size rest
      | some free_pos =>
        if lower_bound ≤ free_pos ∧ free_pos < range_end ∧
            best_size < range_end - free_pos then
          availableLoop search_start search_end alignment free_pos (range_end - free_pos) rest
        else availableLoop search_start search_end alignment best_addr best_size rest

/-- `Available`: an address and the size available there. -/
def available (search_start search_end alignment : ℕ) : Option (ℕ × ℕ) :=
  let search_end := min search_end (Size flexible_memory_size)
  if search_end ≤ search_start then none
  else
    let (best_addr, best_size) :=
      availableLoop search_start search_end alignment 0 0 m.m_free
    if best_size = 0 then none else some (best_addr, best_size)

variable (b : AllocatedBlock)

/-- `m_physical.emplace`: a key that is taken keeps its block. -/
def emplacePhysical (m_physical : List AllocatedBlock) : List AllocatedBlock :=
  if m_physical.any fun c => c.start_addr = b.start_addr then m_physical else place b m_physical

/-- What a release of the middle or of the end of a block leaves on the left. -/
def leftOf (start : ℕ) : AllocatedBlock :=
  let left := { b with size := start - b.start_addr }
  if left.map_vaddr ≠ 0 then { left with map_size := left.size } else left

/-- What a release of the middle of a block leaves on the right. -/
def rightOf (start len : ℕ) : AllocatedBlock :=
  let right := { b with start_addr := start + len, size := b.start_addr + b.size - (start + len) }
  if right.map_vaddr ≠ 0 then
    { right with
      map_vaddr := addU64 right.map_vaddr (right.start_addr - b.start_addr)
      map_size := right.size }
  else right

/-- What a release of the start of a block leaves. -/
def remainingOf (len : ℕ) : AllocatedBlock :=
  let remaining := { b with start_addr := b.start_addr + len, size := b.size - len }
  if remaining.map_vaddr ≠ 0 then
    { remaining with
      map_vaddr := addU64 remaining.map_vaddr len
      map_size := subU64 remaining.map_size len }
  else remaining

/-- The four branches of `Release`: the released part is all of the block `b`, its
middle, its start or its end. Returned are `vaddr`, `size` and `gpu_mode`, and the
blocks that are left. -/
def releaseBlock (rest : List AllocatedBlock) (b : AllocatedBlock) (after : List AllocatedBlock)
    (start len : ℕ) : Option ((ℕ × ℕ × GpuAccessMode) × List AllocatedBlock) :=
  if start = b.start_addr ∧ len = b.size then
    some ((b.map_vaddr, b.map_size, b.gpu_mode), rest ++ after)
  else if b.start_addr < start ∧ start + len < b.start_addr + b.size then
    some ((if b.map_vaddr ≠ 0 then addU64 b.map_vaddr (start - b.start_addr) else 0,
        if b.map_vaddr ≠ 0 then len else 0, b.gpu_mode),
      emplacePhysical (rightOf b start len) (rest ++ leftOf b start :: after))
  else if start = b.start_addr ∧ len < b.size then
    some ((b.map_vaddr, if b.map_vaddr ≠ 0 then len else 0, b.gpu_mode),
      emplacePhysical (remainingOf b len) (rest ++ after))
  else if b.start_addr < start ∧ start + len = b.start_addr + b.size then
    some ((if b.map_vaddr ≠ 0 then addU64 b.map_vaddr (start - b.start_addr) else 0,
        if b.map_vaddr ≠ 0 then len else 0, b.gpu_mode),
      rest ++ leftOf b start :: after)
  else none

/-- `Release`: what was mapped at the released part, if the call succeeds. The part
has to lie in one block that is no pool expansion. -/
def release (start len : ℕ) : Option (ℕ × ℕ × GpuAccessMode) × PhysicalMemory :=
  let before := m.m_physical.takeWhile fun b => b.start_addr ≤ start
  let after := m.m_physical.dropWhile fun b => b.start_addr ≤ start
  match before.getLast? with
  | none => (none, m)
  | some b =>
    if b.pool_expansion ∨ start < b.start_addr ∨ b.start_addr + b.size ≤ start ∨
        b.start_addr + b.size - start < len then (none, m)
    else
      match releaseBlock before.dropLast b after start len with
      | none => (none, m)
      | some (out, m_physical) =>
        (some out, { m with m_physical, m_free := addFreeRange m.m_free start len })

def releasePoolExpansion (phys_addr len : ℕ) : Bool × PhysicalMemory :=
  match m.m_physical.find? fun b => b.start_addr = phys_addr with
  | none => (false, m)
  | some b =>
    if b.pool_expansion = false ∨ b.size ≠ len then (false, m)
    else
      (true,
        { m with
          m_physical := m.m_physical.filter fun c => c.start_addr ≠ phys_addr
          m_free := addFreeRange m.m_free phys_addr len })

/-! ## Protection -/

variable (block : AllocatedBlock)

/-- The part of a mapping before an interval. -/
def mappingBefore (overlap_start : ℕ) : List AllocatedBlock :=
  if block.map_vaddr < overlap_start then
    [{ block with
      size := overlap_start - block.map_vaddr
      map_size := overlap_start - block.map_vaddr }]
  else []

/-- The part of a mapping in an interval. -/
def mappingWithin (overlap_start overlap_end : ℕ) : AllocatedBlock :=
  { block with
    start_addr := block.start_addr + overlap_start - block.map_vaddr
    size := overlap_end - overlap_start
    map_vaddr := overlap_start
    map_size := overlap_end - overlap_start }

/-- The part of a mapping behind an interval. -/
def mappingBehind (overlap_end : ℕ) : List AllocatedBlock :=
  let block_end := block.map_vaddr + block.map_size
  if overlap_end < block_end then
    [{ block with
      start_addr := block.start_addr + overlap_end - block.map_vaddr
      size := block_end - overlap_end
      map_vaddr := overlap_end
      map_size := block_end - overlap_end }]
  else []

def protectMapping (vaddr size : ℕ) (prot : Flags) (mode : Mode)
    (gpu_mode : GpuAccessMode) : PhysicalMemory :=
  if size = 0 ∨ UINT64_MAX - vaddr < size then m
  else
    { m with
      m_mappings := m.m_mappings.flatMap fun block =>
        if virtualRangesOverlap vaddr size block.map_vaddr block.map_size = false then [block]
        else
          let overlap_start := max vaddr block.map_vaddr
          let overlap_end := min (vaddr + size) (block.map_vaddr + block.map_size)
          mappingBefore block overlap_start ++
            [{ mappingWithin block overlap_start overlap_end with prot, mode, gpu_mode }] ++
            mappingBehind block overlap_end }

end PhysicalMemory

end MagnusPS5.Kernel
