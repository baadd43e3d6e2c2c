/-
`VirtualRanges` (`memory.cpp`): the kernel's table of guest address ranges.

The table is a vector of ranges kept in address order. An iterator into it is
modelled by the two parts of the vector before and after it, which is what
`LowerBound` and `std::upper_bound` return here. The functions are the source's,
branch by branch, including the fast paths of `Remove` and `Rename`, the
neighbour-only overlap test of `Add` and `FindOverlap`, and the merge around one
index. A function that returns `bool` and changes the table returns both.

The second half reads the table byte by byte: `Attr` is what a guest can learn of
one address, and `Range` is a `Sliced` item for it, so that cutting and merging
come from `Lib.Spans`.
-/
import MagnusPS5.Lib.Walk
import MagnusPS5.Lib.Keyed
import MagnusPS5.Lib.Cut
import MagnusPS5.Lib.Merge
import MagnusPS5.Kernel.Basic

namespace MagnusPS5.Kernel

open Lib

structure Range where
  start : ℕ
  size : ℕ
  offset : ℕ
  protection : Flags
  memory_type : ℤ
  type : VirtualRangeType
  disallow_merge : Bool
  name : CString
  deriving DecidableEq

instance : Spanned Range where
  lo r := r.start
  hi r := r.start + r.size

/-- The vector `m_ranges`. -/
abbrev VirtualRanges := List Range

namespace VirtualRanges

/-! ## Private helpers of the class -/

/-- `End(r.start, r.size)`. -/
def rangeEnd (r : Range) : ℕ := endOf r.start r.size

def sameMergeKey (left right : Range) : Bool :=
  if left.disallow_merge || right.disallow_merge || left.type = .direct || right.type = .direct
  then false
  else
    left.type = right.type && left.protection = right.protection &&
      left.memory_type = right.memory_type && left.name = right.name

/-- The test before a merge: the ranges touch and have the same key. -/
def canMerge (left right : Range) : Prop :=
  rangeEnd left = right.start ∧ sameMergeKey left right = true

instance : DecidableRel canMerge := fun _ _ => inferInstanceAs (Decidable (_ ∧ _))

/-- `left.size += right.size`. -/
def absorb (left right : Range) : Range := { left with size := left.size + right.size }

/-- The part of a range between two addresses; the backing offset of a direct
range moves along. -/
def subRange (source : Range) (start end_ : ℕ) : Range :=
  { source with
    start := start
    size := end_ - start
    offset := if source.type = .direct then addU64 source.offset (start - source.start)
      else source.offset }

def addPiece (source : Range) (start end_ : ℕ) : List Range :=
  if end_ ≤ start then [] else [subRange source start end_]

variable (m_ranges : VirtualRanges)

/-- `LowerBound`: the ranges before the iterator and the ranges from it on. -/
def lowerBound (start : ℕ) : List Range × List Range :=
  (m_ranges.takeWhile fun r => r.start < start, m_ranges.dropWhile fun r => r.start < start)

/-- `std::upper_bound` on the starts. -/
def upperBound (value : ℕ) : List Range × List Range :=
  (m_ranges.takeWhile fun r => r.start ≤ value, m_ranges.dropWhile fun r => r.start ≤ value)

/-- `MergeAroundUnlocked`: the range at the index is merged into its predecessor
once, then with its successors as long as they fit. -/
def mergeAroundUnlocked (before : List Range) (current : Range) (after : List Range) :
    VirtualRanges :=
  match before.getLast? with
  | some previous =>
    if canMerge previous current then
      before.dropLast ++ mergeWhile canMerge absorb (absorb previous current) after
    else before ++ mergeWhile canMerge absorb current after
  | none => mergeWhile canMerge absorb current after

/-- `MergeUnlocked`: sort by start, then merge every run of neighbours. -/
def mergeUnlocked : VirtualRanges :=
  if m_ranges.length < 2 then m_ranges
  else mergeAll canMerge absorb (m_ranges.insertionSort fun a b => a.start ≤ b.start)

variable (start size : ℕ)

def editUnlocked (edit : Range → Range) : VirtualRanges :=
  if size = 0 then m_ranges
  else
    let edit_end := endOf start size
    mergeUnlocked <| m_ranges.flatMap fun r =>
      if virtualRangesOverlap start size r.start r.size then
        let r_end := rangeEnd r
        let mid_start := max start r.start
        let mid_end := min edit_end r_end
        addPiece r r.start mid_start ++ [edit (subRange r mid_start mid_end)] ++
          addPiece r mid_end r_end
      else [r]

/-- `RemoveUnlocked`: whether something was removed, and what is left. -/
def removeUnlocked : Bool × VirtualRanges :=
  if size = 0 then (false, m_ranges)
  else
    let rem_end := endOf start size
    (m_ranges.any fun r => virtualRangesOverlap start size r.start r.size,
      m_ranges.flatMap fun r =>
        if virtualRangesOverlap start size r.start r.size then
          let r_end := rangeEnd r
          addPiece r r.start (max start r.start) ++ addPiece r (min rem_end r_end) r_end
        else [r])

/-- `FindOverlap`: the range at the lower bound, else the one before it. -/
def findOverlap : Option Range :=
  let (before, position) := lowerBound m_ranges start
  let overlapping := fun r : Range => virtualRangesOverlap start size r.start r.size
  (position.head?.filter overlapping).or (before.getLast?.filter overlapping)

/-! ## Operations -/

def add (start size offset : ℕ) (protection : Flags)
    (memory_type : ℤ) (type : VirtualRangeType) (name : Option CString)
    (disallow_merge : Bool) : Bool × VirtualRanges :=
  if start = 0 ∨ size = 0 then (false, m_ranges)
  else
    let (before, position) := lowerBound m_ranges start
    let overlapping := fun r : Range => virtualRangesOverlap start size r.start r.size
    if position.head?.any overlapping || before.getLast?.any overlapping then (false, m_ranges)
    else
      let r : Range :=
        { start, size, offset, protection, memory_type, type, disallow_merge,
          name := copyVirtualRangeName name }
      (true, mergeAroundUnlocked before r position)

def remove : Bool × VirtualRanges :=
  let (before, position) := lowerBound m_ranges start
  let slow :=
    let (removed, rest) := removeUnlocked m_ranges start size
    (removed, mergeUnlocked rest)
  match position with
  | r :: after => if r.start = start ∧ r.size = size then (true, before ++ after) else slow
  | [] => slow

def hasOverlap : Bool :=
  (findOverlap m_ranges start size).isSome

def queryOverlap : Option Range :=
  findOverlap m_ranges start size

def consumeReserved (type : VirtualRangeType) : Bool × VirtualRanges :=
  let end_ := endOf start size
  if m_ranges.any fun r => r.type = type ∧ r.start ≤ start ∧ end_ ≤ rangeEnd r then
    (true, mergeUnlocked (removeUnlocked m_ranges start size).2)
  else (false, m_ranges)

/-- `ConsumeReservedSpan`: the first range of the span (the `first_range` out
parameter) when the whole span has the type, and the table without the span. -/
def consumeReservedSpan (type : VirtualRangeType) : Option Range × VirtualRanges :=
  if size = 0 then (none, m_ranges)
  else
    let candidate := fun current : ℕ =>
      m_ranges.find? fun r => r.type = type ∧ r.start ≤ current ∧ current < rangeEnd r
    match walk candidate m_ranges.length start (endOf start size) with
    | none => (none, m_ranges)
    | some parts =>
      (parts.head?.map fun part => part.1,
        mergeUnlocked (removeUnlocked m_ranges start size).2)

def rename (name : Option CString) : VirtualRanges :=
  let (before, position) := lowerBound m_ranges start
  let edit := fun r : Range => { r with name := copyVirtualRangeName name }
  match position with
  | r :: after =>
    if r.start = start ∧ r.size = size then mergeAroundUnlocked before (edit r) after
    else editUnlocked m_ranges start size edit
  | [] => editUnlocked m_ranges start size edit

def protect (protection : Flags) : VirtualRanges :=
  editUnlocked m_ranges start size fun r => { r with protection }

def setMemoryType (memory_type : ℤ) : VirtualRanges :=
  editUnlocked m_ranges start size fun r => { r with memory_type }

def query (addr : ℕ) (flags : ℤ) : Option Range :=
  let (before, next) := upperBound m_ranges addr
  match before.getLast?.filter fun current => addr < rangeEnd current with
  | some current => some current
  | none => if flags ≠ 1 then none else next.head?

/-- The loop of `QuerySpan`: the parts from `current` to `end_`, if the ranges
cover it without a gap. -/
def querySpanLoop (end_ : ℕ) : ℕ → List Range → Option (List Range)
  | _, [] => none
  | current, range :: rest =>
    let range_end := rangeEnd range
    if range_end ≤ current then querySpanLoop end_ current rest
    else if current < range.start then none
    else
      let part := subRange range current (min end_ range_end)
      if min end_ range_end = end_ then some [part]
      else (querySpanLoop end_ (min end_ range_end) rest).map (part :: ·)

def querySpan : Option (List Range) :=
  if start = 0 ∨ size = 0 ∨ UINT64_MAX - start < size then none
  else querySpanLoop (start + size) start m_ranges

/-- The loop of `ClampRangeSize`: the committed bytes that continue a prefix of
`clamped_size` bytes which ends at `expected`. -/
def clampLoop (size : ℕ) : ℕ → ℕ → List Range → ℕ
  | clamped_size, _, [] => clamped_size
  | clamped_size, expected, vma :: rest =>
    if vma.start = expected ∧ isCommittedRangeType vma.type ∧ clamped_size < size then
      let chunk := min (size - clamped_size) vma.size
      clampLoop size (clamped_size + chunk) (expected + chunk) rest
    else clamped_size

def clampRangeSize (virtual_addr size : ℕ) : ℕ :=
  if virtual_addr = 0 ∨ size = 0 ∨ UINT64_MAX - virtual_addr < size then 0
  else
    let (before, after) := upperBound m_ranges virtual_addr
    match before.getLast? with
    | none => 0
    | some vma =>
      let vma_end := rangeEnd vma
      if virtual_addr < vma.start ∨ vma_end ≤ virtual_addr ∨
          isCommittedRangeType vma.type = false then 0
      else
        let clamped_size := min size (vma_end - virtual_addr)
        clampLoop size clamped_size (virtual_addr + clamped_size) after

end VirtualRanges

/-! ## The attribute of one address -/

/-- What the table says of one mapped address. `backing` is the backing offset of
that very byte, for direct ranges. -/
structure Attr where
  type : VirtualRangeType
  protection : Flags
  memory_type : ℤ
  name : CString
  disallow_merge : Bool
  backing : Option ℕ
  deriving DecidableEq

/-- The attribute a range gives to one of its addresses. -/
def Range.attr (r : Range) (x : ℕ) : Attr :=
  { type := r.type
    protection := r.protection
    memory_type := r.memory_type
    name := r.name
    disallow_merge := r.disallow_merge
    backing := if r.type = .direct then some (addU64 r.offset (x - r.start)) else none }

instance : Sliced Range Attr where
  attr := Range.attr
  slice := VirtualRanges.subRange
  lo_slice _ _ _ := rfl
  hi_slice _ s e hse := Nat.add_sub_cancel' hse
  attr_slice r s e x hs hx := by
    have hs' : r.start ≤ s := hs
    unfold Range.attr VirtualRanges.subRange
    by_cases hd : r.type = .direct
    · -- the offset moves by `s - r.start`, the address by the rest
      simp only [hd, if_true, addU64]
      congr 2
      omega
    · simp only [hd, if_false]

/-- The table read byte by byte. -/
abbrev VirtualRanges.attrOf (m_ranges : VirtualRanges) (x : ℕ) : Option Attr :=
  view Range.attr m_ranges x

end MagnusPS5.Kernel
