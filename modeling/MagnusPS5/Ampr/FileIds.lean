/-
File ids of the asynchronous file service (`libAmpr.cpp`, `AprShared`): how a guest path is
resolved to an id, and what the id is used for.

The file system of the host is a parameter of each step, since it changes under the
service. `H` is what a host path is. A guest path is the bytes of a C string, `nullptr`
is address 0, and what a call writes through its out-pointers is part of its result.
-/
import MagnusPS5.Ampr.CommandBuffer

namespace MagnusPS5.Ampr

/-- The bytes of a C string, without the zero at the end. -/
abbrev Path := List UInt8

def computeFileId (guest_path : Path) : UInt32 :=
  guest_path.foldl (fun hash p => (hash ^^^ p.toUInt32) * 16777619) 2166136261 &&& 0x7fffffff

/-- What the service asks of the host: the mount table, its files, and the bytes of those
that can be opened. -/
structure FileSystem (H : Type) where
  getRealFilename : Path → H
  isDirectoryExisting : H → Bool
  isFileExisting : H → Bool
  size : H → ℕ
  contents : H → Option (List UInt8)

/-- The errors of the service. -/
inductive ResolveError
  | KERNEL_ERROR_ENOENT
  | KERNEL_ERROR_EFAULT
  | KERNEL_ERROR_EINVAL
deriving DecidableEq

open ResolveError

structure ResolvedPathInfo (H : Type) where
  result : Except ResolveError Unit := .ok ()
  file_id : UInt32
  file_size : ℕ := 0
  is_dir : Bool := false
  host_path : H

/-- The tables of the service. -/
structure AprShared (H : Type) where
  g_files : UInt32 → Option H
  g_file_sizes : UInt32 → Option ℕ
  g_resolved_paths : Path → Option (ResolvedPathInfo H)

section Resolve

variable {H : Type}

def AprShared.start : AprShared H :=
  { g_files := fun _ => none, g_file_sizes := fun _ => none, g_resolved_paths := fun _ => none }

/-- `RegisterHostPathLocked`, with the fields of a resolved path. -/
def registerHostPath (info : ResolvedPathInfo H) (apr : AprShared H) : AprShared H :=
  { apr with
    g_files := Function.update apr.g_files info.file_id (some info.host_path)
    g_file_sizes := Function.update apr.g_file_sizes info.file_id
      (some (if info.is_dir then 0 else info.file_size)) }

variable (fs : FileSystem H)

variable (guest_path : Path)

/-- The outcome of a path that has not been resolved before. -/
def freshInfo : ResolvedPathInfo H :=
  let real_path := fs.getRealFilename guest_path
  let info : ResolvedPathInfo H := { file_id := computeFileId guest_path, host_path := real_path }
  if fs.isDirectoryExisting real_path then { info with is_dir := true, file_size := 0x10000 }
  else if fs.isFileExisting real_path then { info with file_size := fs.size real_path }
  else { info with result := .error KERNEL_ERROR_ENOENT }

/-- The first half of `ResolveOnePath`: the outcome that is remembered for the path, or a new
one. A path that was found is registered, each time. -/
def resolveInfo (apr : AprShared H) : ResolvedPathInfo H × AprShared H :=
  match apr.g_resolved_paths guest_path with
  | some info => (info, if info.result = .ok () then registerHostPath info apr else apr)
  | none =>
    let info := freshInfo fs guest_path
    let apr := { apr with
      g_resolved_paths := Function.update apr.g_resolved_paths guest_path (some info) }
    (info, if info.result = .ok () then registerHostPath info apr else apr)

/-- The result of `ResolveOnePath`, and what it has written to `*id` and `*size`. -/
structure Answer where
  result : Except ResolveError Unit
  id : Option UInt32 := none
  size : Option ℕ := none
deriving DecidableEq

/-- The second half of `ResolveOnePath`. -/
def answerOf (info : ResolvedPathInfo H) (id size : ℕ) : Answer :=
  if info.result ≠ .ok () then { result := info.result }
  else if id ≠ 0 ∧ isValidGuestRange id 4 = false then { result := .error KERNEL_ERROR_EFAULT }
  else
    let written := if id ≠ 0 then some info.file_id else none
    if size ≠ 0 ∧ isValidGuestRange size 8 = false then
      { result := .error KERNEL_ERROR_EFAULT, id := written }
    else
      { result := .ok (), id := written, size := if size ≠ 0 then some info.file_size else none }

def resolveOnePath (id size : ℕ) (apr : AprShared H) : Answer × AprShared H :=
  if guest_path = [] then ({ result := .error KERNEL_ERROR_EINVAL }, apr)
  else
    let resolved := resolveInfo fs guest_path apr
    (answerOf resolved.1 id size, resolved.2)

/-! ## Batches -/

/-- The two characters that separate the parts of a path. -/
def isSeparator (c : UInt8) : Bool := c == 0x2f || c == 0x5c

/-- `JoinPrefixPath`. Without a prefix the path is copied as far as it fits. -/
def joinPrefixPath (base path : Path) (out_size : ℕ) : Option Path :=
  if base = [] then some (path.take (out_size - 1))
  else
    let needs_sep := !path.isEmpty && !(base.getLast?.any isSeparator) &&
      !(path.head?.any isSeparator)
    let joined := base ++ (if needs_sep then [0x2f] else []) ++ path
    if out_size < joined.length + 1 then none else some joined

/-- A call of `ResolvePathsCommon`. `text` is what `ResolvePathFromList` reads for each index,
and `fs` the file system when that index is resolved. -/
structure ResolveCall (H : Type) where
  path_list : ℕ
  count : ℕ
  ids : ℕ
  sizes : ℕ
  error_index : ℕ
  base : Path
  results : ℕ
  text : ℕ → Option Path
  fs : ℕ → FileSystem H

/-- One index of a batch: the path, the file system and the answer. -/
structure Item (H : Type) where
  path : Option Path
  fs : FileSystem H
  answer : Answer

variable (call : ResolveCall H)

/-- The path of an index, if it can be read and joined. -/
def ResolveCall.path (i : ℕ) : Option Path :=
  (call.text i).bind fun guest_path => joinPrefixPath call.base guest_path 2048

/-- The body of the loop of `ResolvePathsCommon`. -/
def ResolveCall.item (i : ℕ) (apr : AprShared H) : Item H × AprShared H :=
  match call.path i with
  | none =>
    ({ path := none, fs := call.fs i, answer := { result := .error KERNEL_ERROR_EFAULT } }, apr)
  | some resolved_path =>
    let resolved := resolveOnePath (call.fs i) resolved_path
      (if call.ids ≠ 0 then call.ids + 4 * i else 0)
      (if call.sizes ≠ 0 then call.sizes + 8 * i else 0) apr
    ({ path := some resolved_path, fs := call.fs i, answer := resolved.1 }, resolved.2)

/-- The loop of `ResolvePathsCommon`, for `count` indices from `i` on. Without `results` it
ends at the first error. -/
def ResolveCall.items (call : ResolveCall H) :
    ℕ → ℕ → AprShared H → List (Item H) × AprShared H
  | 0, _, apr => ([], apr)
  | count + 1, i, apr =>
    let item := call.item i apr
    if item.1.answer.result ≠ .ok () ∧ call.results = 0 then ([item.1], item.2)
    else
      let rest := call.items count (i + 1) item.2
      (item.1 :: rest.1, rest.2)

/-- The checks of `ResolvePathsCommon`. -/
def ResolveCall.check : Except ResolveError Unit :=
  if call.path_list = 0 ∨ call.count = 0 ∨ 1024 < call.count ∨
      (call.ids = 0 ∧ call.sizes = 0 ∧ call.results = 0) then
    .error KERNEL_ERROR_EINVAL
  else if (call.error_index ≠ 0 ∧ isValidGuestRange call.error_index 4 = false) ∨
      (call.ids ≠ 0 ∧ isValidGuestRange call.ids (call.count * 4) = false) ∨
      (call.sizes ≠ 0 ∧ isValidGuestRange call.sizes (call.count * 8) = false) ∨
      (call.results ≠ 0 ∧ isValidGuestRange call.results (call.count * 4) = false) then
    .error KERNEL_ERROR_EFAULT
  else .ok ()

/-- What a batch returns, and what it has written to its arrays, by index. -/
structure Outputs where
  result : Except ResolveError ℕ
  ids : List UInt32 := []
  sizes : List ℕ := []
  results : List (Except ResolveError Unit) := []
  error_index : Option ℕ := none

/-- `ids[i]` and `sizes[i]` after an answer. -/
def Answer.idWritten (answer : Answer) : UInt32 :=
  if answer.result = .ok () then answer.id.getD 0 else 0xffffffff

def Answer.sizeWritten (answer : Answer) : ℕ :=
  if answer.result = .ok () then answer.size.getD 0 else 0

/-- The first error of a list of answers. -/
def firstError (items : List (Item H)) : Except ResolveError ℕ :=
  match items.find? fun item => decide (item.answer.result ≠ .ok ()) with
  | some item => item.answer.result.map fun _ => 0
  | none => .ok 0

/-- What is written and returned, from the answers in the order of the indices. -/
def ResolveCall.outputs (items : List (Item H)) : Outputs :=
  { result := if call.results ≠ 0 then
      .ok (items.countP fun item => decide (item.answer.result = .ok ())) else firstError items
    ids := if call.ids ≠ 0 then items.map (·.answer.idWritten) else []
    sizes := if call.sizes ≠ 0 then items.map (·.answer.sizeWritten) else []
    results := if call.results ≠ 0 then items.map (·.answer.result) else []
    error_index := if call.error_index ≠ 0 then
      (items.zipIdx.filter fun item => decide (item.1.answer.result ≠ .ok ())).getLast?.map (·.2)
      else none }

variable (apr : AprShared H)

/-- `ResolvePathsCommon`; the items are the indices that it has come to. -/
def resolvePathsCommon : Outputs × List (Item H) × AprShared H :=
  match call.check with
  | .error error => ({ result := .error error }, [], apr)
  | .ok _ =>
    let resolved := call.items call.count 0 apr
    (call.outputs resolved.1, resolved)

/-! ## Access through an id -/

variable (file_id : UInt32)

def tryGetHostPath : Option H := apr.g_files file_id

/-- What `GetFileStat` tells of a file, its times left out. -/
structure FileStat where
  st_mode : ℕ
  st_size : ℕ
  st_blksize : ℕ
  st_blocks : ℕ
deriving DecidableEq

def getHostPathStat (host_path : H) : Except ResolveError FileStat :=
  if fs.isDirectoryExisting host_path then
    .ok { st_mode := 0o0777 ||| 0o040000, st_size := 0, st_blksize := 512, st_blocks := 0 }
  else if fs.isFileExisting host_path then
    .ok
      { st_mode := 0o0777 ||| 0o100000
        st_size := fs.size host_path
        st_blksize := 512
        st_blocks := (fs.size host_path + 511) / 512 }
  else .error KERNEL_ERROR_ENOENT

def getFileStat : Except ResolveError FileStat :=
  match tryGetHostPath apr file_id with
  | none => .error KERNEL_ERROR_ENOENT
  | some host_path => getHostPathStat fs host_path

def getFileSize : Except ResolveError ℕ :=
  match tryGetHostPath apr file_id with
  | none => .error KERNEL_ERROR_ENOENT
  | some host_path =>
    match apr.g_file_sizes file_id with
    | some cached_size => .ok cached_size
    | none =>
      if fs.isDirectoryExisting host_path then .ok 0
      else if fs.isFileExisting host_path then .ok (fs.size host_path)
      else .error KERNEL_ERROR_ENOENT

/-- `ReadHostFileToGuest`: the bytes of the file from the offset on, no more than it has. -/
def readHostFile (host_path : H) (file_offset size : ℕ) : Except ResolveError (List UInt8) :=
  if size = 0 then .ok []
  else
    match fs.contents host_path with
    | none => .error KERNEL_ERROR_ENOENT
    | some bytes => .ok ((bytes.drop file_offset).take size)

/-- A read of a submitted command, through the id that it was recorded with. -/
def readFile (file_offset size : ℕ) : Except ResolveError (List UInt8) :=
  match tryGetHostPath apr file_id with
  | none => .error KERNEL_ERROR_ENOENT
  | some host_path => readHostFile fs host_path file_offset size

end Resolve

end MagnusPS5.Ampr
