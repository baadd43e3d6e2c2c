/-
The host calls of the address space (`mmap`, `mprotect`) on Linux.

A host call can fail, and whether it does is up to the host: `outcome` is the
sequence of the results of the calls to come. A call that succeeds acts on whole
pages of the process's memory, kept byte by byte: an anonymous page has a value of
its own, a shared page shows a byte of the backing file.
-/
import MagnusPS5.Kernel.Basic

namespace MagnusPS5.Kernel

/-- What the host has at one address. -/
inductive HostByte
  | unmapped
  | anonymous (prot : Mode) (value : UInt8)
  | shared (prot : Mode) (offset : ℕ)
  deriving DecidableEq

/-- The byte under another protection. -/
def HostByte.withProt (prot : Mode) : HostByte → HostByte
  | .unmapped => .unmapped
  | .anonymous _ value => .anonymous prot value
  | .shared _ offset => .shared prot offset

structure Host where
  outcome : ℕ → Bool
  memory : ℕ → HostByte

namespace Host

/-- The address lies on one of the host pages that an interval touches. -/
def OnPages (start size x : ℕ) : Prop :=
  start / 4096 ≤ x / 4096 ∧ x / 4096 < (start + size + 4095) / 4096

instance (start size x : ℕ) : Decidable (OnPages start size x) :=
  inferInstanceAs (Decidable (_ ∧ _))

/-- One host call: its result, and the memory `after` it if it succeeds. -/
def call (h : Host) (after : ℕ → HostByte) : Bool × Host :=
  (h.outcome 0,
    { outcome := fun n => h.outcome (n + 1)
      memory := if h.outcome 0 then after else h.memory })

/-- `mmap(start, size, PROT_NONE, MAP_PRIVATE | MAP_ANON | MAP_FIXED)`: fresh zero
pages without access. -/
def mapAnonymous (h : Host) (start size : ℕ) : Bool × Host :=
  h.call fun x => if OnPages start size x then .anonymous .noAccess 0 else h.memory x

/-- `mmap(vaddr, size, mode, MAP_SHARED | MAP_FIXED, m_fd, backing_offset)`. -/
def mapShared (h : Host) (vaddr size backing_offset : ℕ) (mode : Mode) : Bool × Host :=
  h.call fun x =>
    if OnPages vaddr size x then .shared mode (backing_offset + x - vaddr) else h.memory x

/-- `SysVirtualProtect`. -/
def protect (h : Host) (address size : ℕ) (mode : Mode) : Bool × Host :=
  h.call fun x => if OnPages address size x then (h.memory x).withProt mode else h.memory x

end Host

end MagnusPS5.Kernel
