/-
`StreamBuffer` (`streamBuffer.cpp`): a ring of host-visible memory for data on its way to
or from the GPU.

`Map` hands out a region behind the last one, or at the start of the buffer once the end
is reached; `Commit` ends the region and notes the tick under which the GPU uses it. The
notes are the watches: those of the current lap, and those of the lap before, which `Map`
waits for as it comes to the memory they guard. What the buffer uses of the scheduler is
its tick, its free-tick counter and the two waits.
-/
import MagnusPS5.Lib.Watches
import MagnusPS5.Kernel.Basic

namespace MagnusPS5.Graphics

open Kernel (UINT64_MAX addU64)

/-! ## The scheduler, as the buffer sees it -/

/-- `CommandScheduler` over states `σ`: any scheduler whose tick never decreases, whose
free-tick counter makes only progress, and which returns from a wait when the tick is
free. -/
structure TickScheduler (σ : Type) where
  CurrentTick : σ → ℕ
  KnownGpuTick : σ → ℕ
  /-- `IsFree`, which may read the counter of the GPU. -/
  isFree : ℕ → σ → Bool × σ
  /-- `Wait`, which may submit the current tick and run deferred operations. -/
  wait : ℕ → σ → σ
  /-- `WaitPriorityOperations`. -/
  waitPriorityOperations : ℕ → σ → σ
  current_isFree : ∀ t s, CurrentTick s ≤ CurrentTick (isFree t s).2
  known_isFree : ∀ t s, KnownGpuTick s ≤ KnownGpuTick (isFree t s).2
  current_wait : ∀ t s, CurrentTick s ≤ CurrentTick (wait t s)
  known_wait : ∀ t s, KnownGpuTick s ≤ KnownGpuTick (wait t s)
  free_wait : ∀ t s, t ≤ KnownGpuTick (wait t s)
  current_priority : ∀ t s, CurrentTick s ≤ CurrentTick (waitPriorityOperations t s)
  known_priority : ∀ t s, KnownGpuTick s ≤ KnownGpuTick (waitPriorityOperations t s)

/-- What may happen to the scheduler between two calls of the buffer. -/
def TickScheduler.Progress {σ : Type} (S : TickScheduler σ) (s s' : σ) : Prop :=
  S.CurrentTick s ≤ S.CurrentTick s' ∧ S.KnownGpuTick s ≤ S.KnownGpuTick s'

theorem TickScheduler.Progress.refl {σ : Type} (S : TickScheduler σ) (s : σ) : S.Progress s s :=
  ⟨le_refl _, le_refl _⟩

theorem TickScheduler.Progress.trans {σ : Type} {S : TickScheduler σ} {s s' s'' : σ}
    (h : S.Progress s s') (h' : S.Progress s' s'') : S.Progress s s'' :=
  ⟨h.1.trans h'.1, h.2.trans h'.2⟩

/-! ## The buffer -/

inductive MemoryUsage
  | deviceLocal | upload | download | stream
  deriving DecidableEq

abbrev Watch := Lib.Watch ℕ ℕ

abbrev noWatch : Watch := ⟨0, 0⟩

/-- `class StreamBuffer`, with what it reads of `Buffer` and of the limits of the
device. -/
structure StreamBuffer where
  /-- `Size()`, a `uint64_t`. -/
  size : ℕ
  size_le : size ≤ UINT64_MAX
  /-- `!Mapped().empty()` -/
  mapped : Bool
  is_coherent : Bool
  usage : MemoryUsage
  /-- `nonCoherentAtomSize` -/
  atom : ℕ
  m_offset : ℕ
  m_mapped_size : ℕ
  m_current_watches : List Watch
  m_current_watch_cursor : ℕ
  m_invalidation_mark : Option ℕ
  m_previous_watches : List Watch
  m_wait_cursor : ℕ
  m_wait_bound : ℕ

namespace StreamBuffer

abbrev WATCHES_INITIAL_RESERVE : ℕ := 16384

abbrev WATCHES_RESERVE_CHUNK : ℕ := 4096

def reserveWatches (watches : List Watch) (grow_size : ℕ) : List Watch :=
  watches ++ List.replicate grow_size noWatch

/-- The constructor. -/
def new (size : ℕ) (size_le : size ≤ UINT64_MAX) (mapped is_coherent : Bool)
    (usage : MemoryUsage) (atom : ℕ) : StreamBuffer where
  size := size
  size_le := size_le
  mapped := mapped
  is_coherent := is_coherent
  usage := usage
  atom := atom
  m_offset := 0
  m_mapped_size := 0
  m_current_watches := reserveWatches [] WATCHES_INITIAL_RESERVE
  m_current_watch_cursor := 0
  m_invalidation_mark := none
  m_previous_watches := reserveWatches [] WATCHES_INITIAL_RESERVE
  m_wait_cursor := 0
  m_wait_bound := 0

/-- `AlignUp`; `none` when the result does not fit 64 bits. -/
def alignUp (value alignment : ℕ) : Option ℕ :=
  if alignment = 0 then some value
  else if value % alignment = 0 then some value
  else if UINT64_MAX - (alignment - value % alignment) < value then none
  else some (value + (alignment - value % alignment))

/-- `NormalizeReservation`: size and alignment in whole atoms where the memory is not
coherent. -/
def normalizeReservation (coherent : Bool) (atom size alignment : ℕ) : Option (ℕ × ℕ) :=
  if coherent then some (size, alignment)
  else
    match alignUp size atom with
    | none => none
    | some size =>
      let divisor := Nat.gcd alignment atom
      if alignment ≠ 0 ∧ UINT64_MAX / atom < alignment / divisor then none
      else some (size, if alignment = 0 then atom else alignment / divisor * atom)

variable {σ : Type}

/-- The loop of `WaitPendingOperations`; `left` is `*invalidation_mark - wait_cursor`. It
returns false with the cursor and the bound it has come to, which `Map` then drops. -/
def waitLoop (S : TickScheduler σ) (usage : MemoryUsage) (watches : List Watch)
    (requested_upper_bound : ℕ) (allow_wait : Bool) :
    ℕ → ℕ → ℕ → σ → Bool × ℕ × ℕ × σ
  | 0, wait_cursor, wait_bound, s => (true, wait_cursor, wait_bound, s)
  | left + 1, wait_cursor, wait_bound, s =>
    if requested_upper_bound ≤ wait_bound then (true, wait_cursor, wait_bound, s)
    else
      let watch := watches.getD wait_cursor noWatch
      let free := S.isFree watch.tick s
      if free.1 = false ∧ allow_wait = false then (false, wait_cursor, wait_bound, free.2)
      else
        let s := S.wait watch.tick free.2
        let s := if usage = .download then S.waitPriorityOperations watch.tick s else s
        waitLoop S usage watches requested_upper_bound allow_wait left (wait_cursor + 1)
          watch.upper_bound s

def waitPendingOperations (S : TickScheduler σ) (usage : MemoryUsage) (watches : List Watch)
    (invalidation_mark : Option ℕ) (requested_upper_bound : ℕ) (allow_wait : Bool)
    (wait_cursor wait_bound : ℕ) (s : σ) : Bool × ℕ × ℕ × σ :=
  match invalidation_mark with
  | none => (true, wait_cursor, wait_bound, s)
  | some mark =>
    waitLoop S usage watches requested_upper_bound allow_wait (mark - wait_cursor)
      wait_cursor wait_bound s

/-- What a call of `Map` leaves behind: the offset it returns, if any, the buffer and the
scheduler. -/
structure Mapping (σ : Type) where
  offset : Option ℕ
  buffer : StreamBuffer
  scheduler : σ

variable (b : StreamBuffer)

/-- `Map` from the point where size and alignment are settled and the offset is known;
`wrap` says that the region does not fit behind the offset. -/
def mapAt (S : TickScheduler σ) (mapped_size aligned_offset : ℕ)
    (wrap allow_wait : Bool) (s : σ) : Mapping σ :=
  let aligned_offset := if wrap then 0 else aligned_offset
  let wait_cursor := if wrap then 0 else b.m_wait_cursor
  let wait_bound := if wrap then 0 else b.m_wait_bound
  let invalidation_mark :=
    if wrap then some b.m_current_watch_cursor else b.m_invalidation_mark
  let pending_watches := if wrap then b.m_current_watches else b.m_previous_watches
  match waitPendingOperations S b.usage pending_watches invalidation_mark
      (aligned_offset + mapped_size) allow_wait wait_cursor wait_bound s with
  | (false, _, _, s) => ⟨none, b, s⟩
  | (true, wait_cursor, wait_bound, s) =>
    let b := if wrap then
        { b with
          m_invalidation_mark := invalidation_mark
          m_current_watch_cursor := 0
          m_previous_watches := b.m_current_watches
          m_current_watches := b.m_previous_watches }
      else b
    ⟨some aligned_offset,
      { b with
        m_wait_cursor := wait_cursor
        m_wait_bound := wait_bound
        m_offset := aligned_offset
        m_mapped_size := mapped_size }, s⟩

def map (S : TickScheduler σ) (size alignment : ℕ) (allow_wait : Bool) (s : σ) : Mapping σ :=
  if b.mapped = false then ⟨none, b, s⟩
  else
    match normalizeReservation b.is_coherent b.atom size alignment with
    | none => ⟨none, b, s⟩
    | some (mapped_size, alignment) =>
      if b.size < mapped_size then ⟨none, b, s⟩
      else
        match alignUp b.m_offset alignment with
        | none => ⟨none, b, s⟩
        | some aligned_offset =>
          mapAt b S mapped_size aligned_offset
            (decide (b.size - mapped_size < aligned_offset)) allow_wait s

/-- `Commit`, at the tick `tick`. -/
def commit (tick : ℕ) : StreamBuffer :=
  let b := { b with m_offset := addU64 b.m_offset b.m_mapped_size }
  if b.m_current_watch_cursor ≠ 0 ∧
      (b.m_current_watches.getD (b.m_current_watch_cursor - 1) noWatch).tick = tick then
    { b with
      m_current_watches :=
        b.m_current_watches.set (b.m_current_watch_cursor - 1) ⟨tick, b.m_offset⟩ }
  else
    let watches :=
      if b.m_current_watches.length ≤ b.m_current_watch_cursor + 1 then
        reserveWatches b.m_current_watches WATCHES_RESERVE_CHUNK
      else b.m_current_watches
    { b with
      m_current_watches := watches.set b.m_current_watch_cursor ⟨tick, b.m_offset⟩
      m_current_watch_cursor := b.m_current_watch_cursor + 1 }

end StreamBuffer

end MagnusPS5.Graphics
