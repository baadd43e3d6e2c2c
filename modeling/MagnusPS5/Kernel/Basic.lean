/-
What the memory subsystem of the kernel shares: 64-bit addresses and sizes,
protections and access modes, range names, and the overlap test that every table
of ranges uses (`memory.cpp`, up to the inclusion of the address space).

Addresses and sizes are natural numbers below `2^64`. Where the source adds two
of them without a check the sum is taken modulo `2^64` here (`addU64`); where it
checks first, or where no table it keeps can make the sum overflow, plain
addition is used.
-/
import Mathlib.Tactic.Common

namespace MagnusPS5.Kernel

/-! ## 64-bit arithmetic -/

abbrev UINT64_MAX : ℕ := 18446744073709551615

/-- `a + b` on `uint64_t`. -/
def addU64 (a b : ℕ) : ℕ := (a + b) % 18446744073709551616

/-- `a - b` on `uint64_t`. -/
def subU64 (a b : ℕ) : ℕ := (a + 18446744073709551616 - b) % 18446744073709551616

theorem addU64_of_le {a b : ℕ} (h : a + b ≤ UINT64_MAX) : addU64 a b = a + b :=
  Nat.mod_eq_of_lt (by unfold UINT64_MAX at h; omega)

theorem subU64_of_le {a b : ℕ} (h : b ≤ a) (ha : a ≤ UINT64_MAX) : subU64 a b = a - b := by
  unfold subU64
  unfold UINT64_MAX at ha
  omega

/-- `VirtualRanges::End`: the end of a range, saturated at `UINT64_MAX`. -/
def endOf (start size : ℕ) : ℕ :=
  if UINT64_MAX - start < size then UINT64_MAX else start + size

theorem endOf_of_le {start size : ℕ} (h : start + size ≤ UINT64_MAX) :
    endOf start size = start + size := by
  unfold endOf
  rw [if_neg (by omega)]

def virtualRangesOverlap (left_start left_size right_start right_size : ℕ) : Bool :=
  if left_size = 0 ∨ right_size = 0 then false
  else
    decide (left_start < endOf right_start right_size ∧
      right_start < endOf left_start left_size)

/-- On ranges that do not wrap the overlap test is the overlap of two non-empty
intervals. -/
theorem virtualRangesOverlap_iff {a n b k : ℕ} (ha : a + n ≤ UINT64_MAX) (hb : b + k ≤ UINT64_MAX) :
    virtualRangesOverlap a n b k = true ↔ 0 < n ∧ 0 < k ∧ a < b + k ∧ b < a + n := by
  unfold virtualRangesOverlap
  by_cases h0 : n = 0 ∨ k = 0
  · rw [if_pos h0]
    constructor
    · intro h
      exact nomatch h
    · intro h
      omega
  · rw [if_neg h0, endOf_of_le ha, endOf_of_le hb, decide_eq_true_eq]
    omega

/-! ## Protections and access modes -/

inductive Mode
  | noAccess | read | write | readWrite
  | execute | executeRead | executeWrite | executeReadWrite
  deriving DecidableEq

def Mode.isExecute : Mode → Bool
  | .execute | .executeRead | .executeWrite | .executeReadWrite => true
  | _ => false

inductive GpuAccessMode
  | noAccess | read | write | readWrite
  deriving DecidableEq

/-- A C `int` that carries flag bits. -/
abbrev Flags := BitVec 32

abbrev PROT_CPU_READ : Flags := 0x01
abbrev PROT_CPU_WRITE : Flags := 0x02
abbrev PROT_CPU_EXEC : Flags := 0x04
abbrev PROT_GPU_READ : Flags := 0x10
abbrev PROT_GPU_WRITE : Flags := 0x20

/-- `(flags & bit) != 0`. -/
def hasBit (flags bit : Flags) : Bool := flags &&& bit != 0

/-- `DecodeMemoryProtection`: the host mode and the GPU access that a guest
protection asks for, `none` where the source returns `false`. -/
def decodeMemoryProtection (prot : Flags) : Option (Mode × GpuAccessMode) :=
  let cpu_read := hasBit prot PROT_CPU_READ
  let cpu_write := hasBit prot PROT_CPU_WRITE
  let cpu_exec := hasBit prot PROT_CPU_EXEC
  let gpu_read := hasBit prot PROT_GPU_READ
  let gpu_write := hasBit prot PROT_GPU_WRITE
  if hasBit prot (PROT_CPU_READ ||| PROT_CPU_WRITE ||| PROT_CPU_EXEC ||| PROT_GPU_READ |||
      PROT_GPU_WRITE) = false ∧ prot ≠ 0 then none
  else
    let gpu_mode :=
      if gpu_read && gpu_write then GpuAccessMode.readWrite
      else if gpu_read then .read
      else if gpu_write then .write
      else .noAccess
    let host_write := cpu_write || gpu_write
    let host_read := cpu_read || gpu_read || host_write
    let mode :=
      if cpu_exec then
        if host_write then Mode.executeReadWrite
        else if host_read then .executeRead
        else .execute
      else if host_write then .readWrite
      else if host_read then .read
      else .noAccess
    some (mode, gpu_mode)

/-! ## Names -/

abbrev KERNEL_MAXIMUM_NAME_LENGTH : ℕ := 32

/-- The characters of a C string before its terminator. -/
abbrev CString := List UInt8

/-- `CopyVirtualRangeName`: at most 31 characters are kept, a null pointer gives
the empty name. The rest of the array is zero, so the kept characters determine
it and `strncmp` on two such arrays is equality. -/
def copyVirtualRangeName (name : Option CString) : CString :=
  (name.getD []).take (KERNEL_MAXIMUM_NAME_LENGTH - 1)

/-! ## Range types -/

inductive VirtualRangeType
  | reserved | poolReserved | direct | flexible | pooled | stack | code | runtime
  deriving DecidableEq

def isReservedRangeType (type : VirtualRangeType) : Bool :=
  type = .reserved ∨ type = .poolReserved

def isCommittedRangeType (type : VirtualRangeType) : Bool := !isReservedRangeType type

end MagnusPS5.Kernel
