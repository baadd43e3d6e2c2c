/-
`GuestAddressSpace` (`memoryAddressSpace.inc`): which part of the host's address
space the guest may use, on Linux.

Three containers are kept in step: `m_free` maps the start of a free block to its
size, `m_mapped` maps the start of a mapped region to the region, and `m_owned`
lists what was ever reserved. The functions follow the source branch by branch, in
64-bit arithmetic where the source adds without a check. A call that runs into an
`EXIT_IF` has no result.
-/
import MagnusPS5.Lib.Runs
import MagnusPS5.Kernel.BackingStore

namespace MagnusPS5.Kernel

open Lib
open Spanned (lo hi)

inductive MappingType
  | backing | private_
  deriving DecidableEq

structure MappedRegion where
  vaddr : ℕ
  size : ℕ
  type : MappingType
  deriving DecidableEq

instance : Spanned MappedRegion where
  lo r := r.vaddr
  hi r := r.vaddr + r.size

structure GuestAddressSpace where
  m_free : List Run
  m_mapped : List MappedRegion
  m_owned : List Run
  m_backing : GuestBackingStore

namespace GuestAddressSpace

abbrev PageSize : ℕ := 0x4000

def alignUp (value alignment : ℕ) : ℕ :=
  if alignment = 0 then 0
  else
    let remainder := value % alignment
    let increment := if remainder ≠ 0 then alignment - remainder else 0
    if increment ≤ UINT64_MAX - value then value + increment else 0

/-- `AlignDown`, for an alignment that is a power of two. -/
def alignDown (value alignment : ℕ) : ℕ := value - value % alignment

def isPageAligned (value : ℕ) : Bool := value % PageSize = 0

/-! ## The free blocks -/

variable (m_free : List Run)

def findContaining (vaddr size : ℕ) : Option Run :=
  (floor? m_free vaddr).filter fun it =>
    it.start ≤ vaddr ∧ addU64 vaddr size ≤ addU64 it.start it.size

/-- `it->second = size`. -/
def setSize (start size : ℕ) (m_free : List Run) : List Run :=
  m_free.map fun b => if b.start = start then { b with size } else b

/-- `m_free.emplace(start, size).first`, with the map after it. -/
def emplaceFirst (start size : ℕ) (m_free : List Run) : Run × List Run :=
  match m_free.find? fun b => b.start = start with
  | some it => (it, m_free)
  | none => (⟨start, size⟩, place ⟨start, size⟩ m_free)

/-- `SplitUnlocked`, which always succeeds on Linux. -/
def splitUnlocked (it : Run) (vaddr size : ℕ) : List Run :=
  let base := it.start
  let end_ := addU64 it.start it.size
  if base = vaddr ∧ end_ = addU64 vaddr size then m_free
  else
    let (it, m_free) :=
      if base ≠ vaddr then
        emplaceFirst vaddr (subU64 end_ vaddr) (setSize base (subU64 vaddr base) m_free)
      else (it, m_free)
    if it.size ≠ size then
      let right_start := addU64 it.start size
      let right_size := subU64 it.size size
      (emplaceFirst right_start right_size (setSize it.start size m_free)).2
    else m_free

def consumeUnlocked (vaddr size : ℕ) : Bool × List Run :=
  match findContaining m_free vaddr size with
  | none => (false, m_free)
  | some it =>
    let m_free := splitUnlocked m_free it vaddr size
    match m_free.find? fun b => b.start = vaddr with
    | none => (false, m_free)
    | some it => if it.size ≠ size then (false, m_free) else (true, eraseAt vaddr m_free)

/-- The first loop of `AddFreeUnlocked`, over the blocks before the new one, the
nearest first. -/
def coalesceBack (base : ℕ) : List Run → ℕ × List Run
  | [] => (base, [])
  | prev :: rest =>
    if addU64 prev.start prev.size ≠ base then (base, prev :: rest)
    else coalesceBack prev.start rest

/-- The second loop of `AddFreeUnlocked`, over the blocks behind the new one. -/
def coalesceForward (end_ : ℕ) : List Run → ℕ × List Run
  | [] => (end_, [])
  | last :: rest =>
    if end_ = last.start then coalesceForward (addU64 last.start last.size) rest
    else (end_, last :: rest)

/-- `AddFreeUnlocked`. A block with the same start gives way to the new one. -/
def addFreeUnlocked (vaddr size : ℕ) : List Run :=
  if vaddr = 0 ∨ size = 0 then m_free
  else
    let before := m_free.takeWhile fun b => b.start < vaddr
    let after := m_free.dropWhile fun b => b.start ≤ vaddr
    let it_end := addU64 vaddr size
    let (base, first) := coalesceBack vaddr before.reverse
    let (end_, last) := coalesceForward it_end after
    if base ≠ vaddr ∨ end_ ≠ it_end then first.reverse ++ ⟨base, subU64 end_ base⟩ :: last
    else before ++ ⟨vaddr, size⟩ :: after

/-! ## The mapped regions -/

variable (m_mapped : List MappedRegion)

def findMappedContainingUnlocked (vaddr : ℕ) : Option MappedRegion :=
  (floor? m_mapped vaddr).filter fun it => vaddr < it.vaddr + it.size

def containsMappedUnlocked (vaddr size : ℕ) (type : MappingType) : Bool :=
  if size = 0 ∨ UINT64_MAX - vaddr < size then false
  else
    (walk (fun current =>
        (findMappedContainingUnlocked m_mapped current).filter fun it => it.type = type)
      m_mapped.length vaddr (vaddr + size)).isSome

/-- `AddMappedUnlocked`: the regions with the new one, `none` where the source
returns `false`. -/
def addMappedUnlocked (vaddr size : ℕ) (type : MappingType) : Option (List MappedRegion) :=
  if size = 0 ∨ UINT64_MAX - vaddr < size then none
  else
    let end_ := vaddr + size
    let next := (m_mapped.dropWhile fun r => r.vaddr < vaddr).head?
    let previous := (m_mapped.takeWhile fun r => r.vaddr < vaddr).getLast?
    if next.any fun r => r.vaddr < end_ then none
    else if previous.any fun r => vaddr < r.vaddr + r.size then none
    else emplace ⟨vaddr, size, type⟩ m_mapped

/-- What `RemoveMappedUnlocked` enters again of a region, if it is not empty. -/
def addMappedPart (start end_ : ℕ) (type : MappingType) : Option (List MappedRegion) :=
  if start < end_ then addMappedUnlocked m_mapped start (end_ - start) type else some m_mapped

/-- The loop of `RemoveMappedUnlocked`. -/
def removeMappedLoop (end_ : ℕ) : ℕ → ℕ → List MappedRegion → Option (List MappedRegion)
  | 0, current, m_mapped => if current < end_ then none else some m_mapped
  | fuel + 1, current, m_mapped =>
    if current < end_ then
      match findMappedContainingUnlocked m_mapped current with
      | none => none
      | some original =>
        let part_end := min end_ (original.vaddr + original.size)
        ((addMappedPart (eraseAt original.vaddr m_mapped) original.vaddr current
            original.type).bind fun m_mapped =>
          addMappedPart m_mapped part_end (original.vaddr + original.size)
            original.type).bind
          (removeMappedLoop end_ fuel part_end)
    else some m_mapped

/-- `RemoveMappedUnlocked`: `some none` where the source returns `false`. -/
def removeMappedUnlocked (vaddr size : ℕ) (type : MappingType) :
    Option (Option (List MappedRegion)) :=
  if containsMappedUnlocked m_mapped vaddr size type then
    (removeMappedLoop (vaddr + size) m_mapped.length vaddr m_mapped).map some
  else some none

/-! ## Operations -/

/-- The protection pages get when they are mapped. -/
def hostMode (mode : Mode) : Mode := if mode.isExecute then .executeReadWrite else .readWrite

variable (s : GuestAddressSpace)

def mapBacking (vaddr size backing_offset : ℕ) (mode : Mode) : Option (Bool × GuestAddressSpace) :=
  let (consumed, m_free) := consumeUnlocked s.m_free vaddr size
  if consumed then
    match s.m_backing.mapExistingPlaceholderFixed vaddr size backing_offset (hostMode mode) with
    | none => none
    | some (true, m_backing) =>
      (addMappedUnlocked s.m_mapped vaddr size .backing).map fun m_mapped =>
        (true, { s with m_free, m_mapped, m_backing })
    | some (false, m_backing) =>
      some (false, { s with m_free := addFreeUnlocked m_free vaddr size, m_backing })
  else some (false, { s with m_free })

def unmapBacking (vaddr size : ℕ) : Option (Bool × GuestAddressSpace) :=
  if containsMappedUnlocked s.m_mapped vaddr size .backing then
    match s.m_backing.unmap vaddr size with
    | none => none
    | some (false, m_backing) => some (false, { s with m_backing })
    | some (true, m_backing) =>
      match removeMappedUnlocked s.m_mapped vaddr size .backing with
      | some (some m_mapped) =>
        some (true,
          { s with m_free := addFreeUnlocked s.m_free vaddr size, m_mapped, m_backing })
      | _ => none
  else some (false, s)

/-- `ClaimFixedUnlocked`: the pages around the interval are taken from the host. -/
def claimFixedUnlocked (vaddr size : ℕ) : Bool × GuestAddressSpace :=
  let start := alignDown vaddr PageSize
  let end_ := alignUp (addU64 vaddr size) PageSize
  let (claimed, host) := s.m_backing.host.mapAnonymous start (subU64 end_ start)
  let s := { s with m_backing := { s.m_backing with host } }
  if claimed then
    (true,
      { s with
        m_free := addFreeUnlocked s.m_free start (subU64 end_ start)
        m_owned := s.m_owned ++ [⟨start, subU64 end_ start⟩] })
  else (false, s)

/-- The end of `Commit`, once the interval is taken out of the free blocks. -/
def commitConsumed (vaddr size : ℕ) (mode : Mode) : Option (Bool × GuestAddressSpace) :=
  let (protected_, host) := s.m_backing.host.protect vaddr size (hostMode mode)
  let s := { s with m_backing := { s.m_backing with host } }
  if protected_ then
    (addMappedUnlocked s.m_mapped vaddr size .private_).map fun m_mapped =>
      (true, { s with m_mapped })
  else some (false, { s with m_free := addFreeUnlocked s.m_free vaddr size })

def commit (vaddr size : ℕ) (mode : Mode) : Option (Bool × GuestAddressSpace) :=
  let (consumed, m_free) := consumeUnlocked s.m_free vaddr size
  let s := { s with m_free }
  if consumed then commitConsumed s vaddr size mode
  else
    let (claimed, s) := claimFixedUnlocked s vaddr size
    if claimed then
      let (consumed, m_free) := consumeUnlocked s.m_free vaddr size
      let s := { s with m_free }
      if consumed then commitConsumed s vaddr size mode else some (false, s)
    else some (false, s)

/-- The loop of `ReleaseCommitted` over the host pages, `RestorePlaceholder` on each
region. -/
def restorePlaceholders : List (MappedRegion × ℕ × ℕ) → Host → Option Host
  | [], host => some host
  | (_, current, part_end) :: parts, host =>
    match host.mapAnonymous current (part_end - current) with
    | (true, host) => restorePlaceholders parts host
    | (false, _) => none

def releaseCommitted (vaddr size : ℕ) : Option (Bool × GuestAddressSpace) :=
  if vaddr = 0 ∨ size = 0 ∨ isPageAligned vaddr = false ∨ isPageAligned size = false then
    some (false, s)
  else if containsMappedUnlocked s.m_mapped vaddr size .private_ then
    match walk (findMappedContainingUnlocked s.m_mapped) s.m_mapped.length vaddr
        (vaddr + size) with
    | none => none
    | some regions =>
      match restorePlaceholders regions s.m_backing.host with
      | none => none
      | some host =>
        match removeMappedUnlocked s.m_mapped vaddr size .private_ with
        | some (some m_mapped) =>
          some (true,
            { s with
              m_free := addFreeUnlocked s.m_free vaddr size
              m_mapped
              m_backing := { s.m_backing with host } })
        | _ => none
  else some (false, s)

/-- `ProtectMappedUnlocked`, over the regions from the iterator on. -/
def protectMappedLoop (vaddr end_ : ℕ) (mode : Mode) : List MappedRegion → Host → Bool × Host
  | [], host => (true, host)
  | region :: rest, host =>
    if region.vaddr < end_ then
      let range_start := max vaddr region.vaddr
      let range_end := min end_ (region.vaddr + region.size)
      if range_start < range_end then
        match host.protect range_start (range_end - range_start) mode with
        | (true, host) => protectMappedLoop vaddr end_ mode rest host
        | (false, host) => (false, host)
      else protectMappedLoop vaddr end_ mode rest host
    else (true, host)

/-- `Protect` and `ProtectTransient`. -/
def protect (vaddr size : ℕ) (mode : Mode) : Bool × GuestAddressSpace :=
  if size = 0 ∨ UINT64_MAX - vaddr < size then (false, s)
  else
    let passed := s.m_mapped.takeWhile fun r => r.vaddr ≤ vaddr
    let ahead := s.m_mapped.dropWhile fun r => r.vaddr ≤ vaddr
    let (ok, host) :=
      protectMappedLoop vaddr (vaddr + size) mode (passed.getLast?.toList ++ ahead)
        s.m_backing.host
    (ok, { s with m_backing := { s.m_backing with host } })

/-- `reserve_range`, for a range that the host grants. -/
def reserveRange (range : Run) : GuestAddressSpace :=
  { s with
    m_free := addFreeUnlocked s.m_free range.start range.size
    m_owned := s.m_owned ++ [range] }

/-- The constructor, on a host that grants the given ranges of the guest regions. -/
def init (ranges : List Run) (backing_size : ℕ) (host : Host) : GuestAddressSpace :=
  ranges.foldl reserveRange
    { m_free := [], m_mapped := [], m_owned := [],
      m_backing := { m_size := backing_size, m_maps := [], host } }

end GuestAddressSpace

end MagnusPS5.Kernel
