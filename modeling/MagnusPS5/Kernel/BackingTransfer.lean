/-
`TryReadBacking`, `TryWriteBacking` and `TryReadSparseBacking`
(`memoryAddressSpace.inc`): copies between a buffer and the guest's view of the
backing file.

A call first walks the views under its span and checks that they lie in the file,
then copies view by view. The store reaches the file through an alias of all of it
when it could map one. On macOS it may have none, and `TransferFileRange` maps one
window after the other; the host can refuse each of them.
-/
import Mathlib
import MagnusPS5.Lib.Copies
import MagnusPS5.Kernel.BackingStore

namespace MagnusPS5.Kernel

open Lib
open Spanned (lo hi)

/-- Bytes by position: a buffer, or what the backing file holds. -/
abbrev Bytes := ℕ → UInt8

/-- `window_size` of `TransferFileRange`. -/
abbrev window_size : ℕ := 64 * 1024 * 1024

/-- How the store reaches its file: whether it has the alias `m_backing_base`, and the
page size of the host, a power of two. -/
structure FileAccess where
  m_backing_base : Bool
  page_size : ℕ
  page_pos : 0 < page_size
  page_le : page_size ≤ window_size

namespace FileAccess

variable {σ : Type*}

/-- The size of the next window of `TransferFileRange`. -/
def windowBytes (io : FileAccess) (backing_offset size : ℕ) : ℕ :=
  let delta := backing_offset % io.page_size
  min size (window_size - delta)

/-- `TransferFileRange`. Every window holds a byte, so `size` is fuel enough. -/
def transferFileRange (io : FileAccess) (transfer : ℕ → ℕ → ℕ → σ → σ) :
    (fuel backing_offset data_offset size : ℕ) → Host → σ → Bool × Host × σ
  | 0, _, _, _, host, s => (true, host, s)
  | fuel + 1, backing_offset, data_offset, size, host, s =>
    if size = 0 then (true, host, s)
    else
      let bytes := io.windowBytes backing_offset size
      let (mapped, host) := host.call host.memory
      if mapped then
        transferFileRange io transfer fuel (backing_offset + bytes) (data_offset + bytes)
          (size - bytes) host (transfer backing_offset data_offset bytes s)
      else (false, host, s)

/-- A piece of a transfer: where it lies in the file, where in the buffer, and how long
it is. -/
structure Piece where
  offset : ℕ
  data_offset : ℕ
  bytes : ℕ
  deriving DecidableEq

/-- The copying loop over the pieces. -/
def transferPieces (io : FileAccess) (transfer : ℕ → ℕ → ℕ → σ → σ) :
    List Piece → Host → σ → Bool × Host × σ
  | [], host, s => (true, host, s)
  | p :: pieces, host, s =>
    if io.m_backing_base then
      transferPieces io transfer pieces host (transfer p.offset p.data_offset p.bytes s)
    else
      match transferFileRange io transfer p.bytes p.offset p.data_offset p.bytes host s with
      | (true, host, s) => transferPieces io transfer pieces host s
      | (false, host, s) => (false, host, s)

/-- How many windows `TransferFileRange` asks the host for. -/
def windowCount (io : FileAccess) : (fuel backing_offset size : ℕ) → ℕ
  | 0, _, _ => 0
  | fuel + 1, backing_offset, size =>
    if size = 0 then 0
    else
      let bytes := io.windowBytes backing_offset size
      windowCount io fuel (backing_offset + bytes) (size - bytes) + 1

/-- How many windows a transfer of the pieces asks for: none with the alias. -/
def windowsOf (io : FileAccess) (pieces : List Piece) : ℕ :=
  if io.m_backing_base then 0
  else (pieces.map fun p => io.windowCount p.bytes p.offset p.bytes).sum

end FileAccess

open FileAccess (Piece)

namespace GuestBackingStore

/-- The piece of a part of the span. -/
def pieceOf (vaddr : ℕ) (part : MapEntry × ℕ × ℕ) : Piece :=
  let (entry, current, part_end) := part
  ⟨entry.backing_offset + current - entry.vaddr, current - vaddr, part_end - current⟩

variable (b : GuestBackingStore)

/-- The first loop of `TryTransferBacking`: the pieces of the span, if all of it is
mapped, and mapped to the file. -/
def spanPieces (vaddr size : ℕ) : Option (List Piece) :=
  if size = 0 ∨ UINT64_MAX - vaddr < size then none
  else
    match walk (fun current => b.findContainingUnlocked current 1) b.m_maps.length vaddr
        (vaddr + size) with
    | none => none
    | some parts =>
      let pieces := parts.map (pieceOf vaddr)
      if pieces.all fun p => b.rangeOk p.offset p.bytes then some pieces else none

def tryTransferBacking {σ : Type*} (b : GuestBackingStore) (io : FileAccess) (vaddr size : ℕ)
    (transfer : ℕ → ℕ → ℕ → σ → σ) (s : σ) : Bool × Host × σ :=
  match b.spanPieces vaddr size with
  | none => (false, b.host, s)
  | some pieces => io.transferPieces transfer pieces b.host s

/-- `TryReadBacking`: its result, the host, and the buffer. No buffer is a null pointer. -/
def tryReadBacking (io : FileAccess) (file : Bytes) (vaddr : ℕ)
    (data : Option Bytes) (size : ℕ) : Bool × Host × Option Bytes :=
  match data with
  | none => (false, b.host, none)
  | some destination =>
    let (ok, host, destination) := b.tryTransferBacking io vaddr size
      (fun offset data_offset bytes => copyBlock file offset data_offset bytes) destination
    (ok, host, some destination)

/-- `TryWriteBacking`: its result, the host, and what the file holds. -/
def tryWriteBacking (io : FileAccess) (file : Bytes) (vaddr : ℕ)
    (data : Option Bytes) (size : ℕ) : Bool × Host × Bytes :=
  match data with
  | none => (false, b.host, file)
  | some source =>
    b.tryTransferBacking io vaddr size
      (fun offset data_offset bytes => copyBlock source data_offset offset bytes) file

/-- The views from the iterator `first` of `TryReadSparseBacking` on: from the one that
reaches into the span, or the first one behind its start. -/
def sparseFirst (vaddr : ℕ) : List MapEntry :=
  let first := b.m_maps.dropWhile fun e => e.vaddr < vaddr
  match (b.m_maps.takeWhile fun e => e.vaddr < vaddr).getLast? with
  | none => first
  | some previous => if vaddr < previous.vaddr + previous.size then previous :: first else first

/-- The views that its loops go through. -/
def sparseMaps (vaddr end_ : ℕ) : List MapEntry :=
  (b.sparseFirst vaddr).takeWhile fun e => e.vaddr < end_

/-- The piece of a view that lies in the span. -/
def sparsePieceOf (vaddr end_ : ℕ) (entry : MapEntry) : Piece :=
  let start := max vaddr entry.vaddr
  let bytes := min end_ (entry.vaddr + entry.size) - start
  ⟨entry.backing_offset + start - entry.vaddr, start - vaddr, bytes⟩

/-- The pieces of a sparse read. -/
def sparsePieces (vaddr size : ℕ) : List Piece :=
  (b.sparseMaps vaddr (vaddr + size)).map (sparsePieceOf vaddr (vaddr + size))

def tryReadSparseBacking (io : FileAccess) (file : Bytes) (vaddr : ℕ)
    (data : Option Bytes) (size : ℕ) : Bool × Host × Option Bytes :=
  match data with
  | none => (false, b.host, none)
  | some destination =>
    if size = 0 ∨ UINT64_MAX - vaddr < size then (false, b.host, data)
    else
      let pieces := b.sparsePieces vaddr size
      if pieces.all fun p => b.rangeOk p.offset p.bytes then
        -- the `memset` before the copies
        let cleared : Bytes := fun i => if i < size then 0 else destination i
        let (ok, host, destination) := io.transferPieces
          (fun offset data_offset bytes => copyBlock file offset data_offset bytes)
          pieces b.host cleared
        (ok, host, some destination)
      else (false, b.host, data)

end GuestBackingStore

end MagnusPS5.Kernel
