/-
Descriptors: `FileDescriptors`, `KernelOpen`, `KernelClose` and the checks of the other file
calls (`fileSystem.cpp`), and the sockets and epolls that share their numbers
(`network.cpp`).

What the host file system answers is an argument of the call. A call of the guest runs to
its end before the next one starts, and may stop the process on the way.
-/
import Mathlib.Data.List.Basic
import Mathlib.Algebra.Order.Ring.Int

namespace MagnusPS5.Kernel.FileSystem

/-! ## Results -/

/-- The error codes of the kernel that these calls return. -/
inductive Error
  | eperm | enoent | eio | ebadf | eacces | efault | eexist | enotdir | einval | espipe | emfile
  deriving DecidableEq

/-- Why the process stops. -/
inductive Exit
  /-- `EXIT` on the access mode of `KernelOpen`. -/
  | invalidFlag
  /-- `EXIT_NOT_IMPLEMENTED`. -/
  | notImplemented
  /-- `EXIT_IF` on a file that is not opened. -/
  | notOpened
  /-- Another `EXIT_IF`. -/
  | assertion
  deriving DecidableEq

/-- What a call comes to. -/
inductive Outcome (α : Type)
  | returned (value : α)
  | failed (error : Error)
  | exit (reason : Exit)
  deriving DecidableEq

/-! ## The table of files -/

/-- The first number that a file can have. -/
abbrev DESCRIPTOR_MIN : ℤ := 3

inductive SpecialFile
  | none | random
  deriving DecidableEq

structure DirEntry where
  is_file : Bool
  name : String
  deriving DecidableEq

/-- `File`. `id` tells the objects apart: it is the number of the call that made it. -/
structure File where
  id : ℕ
  name : String := ""
  real_name : String := ""
  opened : Bool := false
  directory : Bool := false
  writable : Bool := false
  append : Bool := false
  sync_writes : Bool := false
  special : SpecialFile := .none
  dents : List DirEntry := []
  dents_offset : ℕ := 0
  deriving DecidableEq

/-- `FileDescriptors::m_files`, a vector of pointers. -/
abbrev Files := List (Option File)

/-- The slot of a number; a negative one becomes too large. -/
def slotOf (d : ℤ) : Option ℕ := if d < DESCRIPTOR_MIN then none else some (d - DESCRIPTOR_MIN).toNat

/-- `FileDescriptors::CreateDescriptor`: the first null slot, or a new one at the end. -/
def createDescriptor (m_files : Files) (id : ℕ) : ℤ × Files :=
  match m_files.findIdx? Option.isNone with
  | some index => (index + DESCRIPTOR_MIN, m_files.set index (some { id := id }))
  | none => ((m_files.length + 1 : ℕ) + DESCRIPTOR_MIN - 1, m_files ++ [some { id := id }])

def getFile (m_files : Files) (d : ℤ) : Option File :=
  match slotOf d with
  | none => none
  | some index => m_files[index]?.join

/-- What a call writes through the pointer it got from `GetFile`. -/
def putFile (m_files : Files) (d : ℤ) (file : Option File) : Files :=
  match slotOf d with
  | none => m_files
  | some index => m_files.set index file

/-- `FileDescriptors::DeleteDescriptor`, with the checks before it. -/
def deleteDescriptor (m_files : Files) (d : ℤ) : Outcome Files :=
  match getFile m_files d with
  | none => .exit .assertion
  | some file => if file.opened then .exit .assertion else .returned (putFile m_files d none)

/-! ## `KernelOpen` -/

inductive Mode
  | read | write | readWrite
  deriving DecidableEq

/-- The flags of `KernelOpen` that it looks at. -/
structure OpenFlags where
  mode : Option Mode
  append : Bool
  fsync : Bool
  creat : Bool
  trunc : Bool
  excl : Bool
  dsync : Bool
  directory : Bool
  deriving DecidableEq

/-- The tests of `flags_u`. -/
def decodeFlags (flags : BitVec 32) : OpenFlags where
  mode :=
    if flags &&& 0x3 = 0 then some .read
    else if flags &&& 0x3 = 1 then some .write
    else if flags &&& 0x3 = 2 then some .readWrite
    else none
  append := flags &&& 0x0008 != 0
  fsync := flags &&& 0x0080 != 0
  creat := flags &&& 0x0200 != 0
  trunc := flags &&& 0x0400 != 0
  excl := flags &&& 0x0800 != 0
  dsync := flags &&& 0x1000 != 0
  directory := flags &&& 0x00020000 != 0

/-- What the host answers during one call of `KernelOpen`. -/
structure HostAnswers where
  /-- `GetRealDirectory` or `GetRealFilename`. -/
  real_name : String
  /-- `IsDirectoryExisting` and `IsFileExisting`. -/
  dir_exist : Bool
  file_exist : Bool
  dents : List DirEntry
  /-- `Create`, `Open` and `Truncate`. -/
  created : Bool
  opened : Bool
  truncated : Bool
  /-- `IsInvalid` at the end. -/
  invalid : Bool
  deriving DecidableEq

def isRandomDevice (path : String) : Bool := path == "/dev/random" || path == "/dev/urandom"

/-- An exit of `KernelOpen` that gives the descriptor back first. -/
def undo (m_files : Files) (descriptor : ℤ) (error : Error) : Outcome ℤ × Files :=
  match deleteDescriptor m_files descriptor with
  | .returned m_files => (.failed error, m_files)
  | .failed error => (.failed error, m_files)
  | .exit reason => (.exit reason, m_files)

variable (file : File)

/-- The fields of a new file that `KernelOpen` takes from its arguments. -/
def describe (path : String) (flags : OpenFlags) (rw_mode : Mode) : File :=
  { file with
    name := path
    writable := rw_mode != Mode.read
    append := flags.append
    sync_writes := flags.fsync || flags.dsync }

/-- `KernelOpen` of a random device. -/
def asRandom : File :=
  { file with real_name := file.name, special := .random, opened := true }

/-- `KernelOpen` from the existence checks on. -/
def openExisting (m_files : Files) (descriptor : ℤ) (file : File) (flags : OpenFlags)
    (rw_mode : Mode) (host : HostAnswers) : Outcome ℤ × Files :=
  if !flags.creat && !host.dir_exist && !host.file_exist then undo m_files descriptor .enoent
  else if flags.directory || host.dir_exist then
    if !host.dir_exist then undo m_files descriptor .enotdir
    else if !flags.directory && rw_mode != Mode.read then (.exit .notImplemented, m_files)
    else if !flags.directory && (flags.trunc || flags.creat) then (.exit .notImplemented, m_files)
    else
      let file := { file with dents := host.dents, dents_offset := 0, directory := true }
      (.returned descriptor, putFile m_files descriptor (some { file with opened := true }))
  else if flags.excl && flags.creat && host.file_exist then undo m_files descriptor .eexist
  else
    let result :=
      if flags.creat && (!host.file_exist || flags.trunc) then host.created else host.opened
    let result := if result && flags.trunc then host.truncated else result
    if !result || host.invalid then undo m_files descriptor .eacces
    else (.returned descriptor, putFile m_files descriptor (some { file with opened := true }))

def kernelOpen (m_files : Files) (id : ℕ) (path : Option String) (flags : BitVec 32)
    (host : HostAnswers) : Outcome ℤ × Files :=
  match path with
  | none => (.failed .einval, m_files)
  | some path =>
    let flags := decodeFlags flags
    match flags.mode with
    | none => (.exit .invalidFlag, m_files)
    | some rw_mode =>
      if flags.directory && rw_mode != Mode.read then (.exit .notImplemented, m_files)
      else if flags.directory && (flags.trunc || flags.creat) then
        (.exit .notImplemented, m_files)
      else
        let descriptor := (createDescriptor m_files id).1
        let m_files := (createDescriptor m_files id).2
        match getFile m_files descriptor with
        | none => (.exit .assertion, m_files)
        | some file =>
          if file.opened || file.directory then (.exit .assertion, m_files)
          else
            let file := describe file path flags rw_mode
            if !flags.directory && isRandomDevice file.name then
              (.returned descriptor, putFile m_files descriptor (some (asRandom file)))
            else
              let file := { file with real_name := host.real_name }
              let m_files := putFile m_files descriptor (some file)
              if flags.trunc && rw_mode == Mode.read then
                -- the one exit that does not give the descriptor back
                (.failed .eacces, m_files)
              else openExisting m_files descriptor file flags rw_mode host

/-! ## Sockets and epolls -/

/-- The numbers of sockets start here. -/
abbrev SOCKET_FD_MIN : ℕ := 128

/-- They end here, where the numbers of epolls start. -/
abbrev SOCKET_FD_MAX : ℕ := 1024
abbrev EPOLL_ID_BASE : ℕ := SOCKET_FD_MAX

/-- `g_epolls.size()`. -/
abbrev EPOLL_COUNT : ℕ := 32

/-- The slots of `g_sockets` and `g_epolls`, each with the object in it. -/
structure Network where
  g_sockets : ℕ → Option ℕ
  g_epolls : ℕ → Option ℕ

variable (network : Network)

def isSocket (s : ℤ) : Bool :=
  if s < 0 ∨ (SOCKET_FD_MAX : ℤ) ≤ s then false else (network.g_sockets s.toNat).isSome

/-- The loop of `AllocSocketFd`. -/
def freeSocket : Option ℕ :=
  (List.range' SOCKET_FD_MIN (SOCKET_FD_MAX - SOCKET_FD_MIN)).find?
    fun fd => (network.g_sockets fd).isNone

/-- `AllocSocketFd`, at the end of `Socket` and `Accept`; they return `EMFILE` where it finds
no slot. -/
def allocSocketFd (id : ℕ) : Outcome ℤ × Network :=
  match freeSocket network with
  | none => (.failed .emfile, network)
  | some fd =>
    (.returned fd, { network with g_sockets := Function.update network.g_sockets fd (some id) })

/-- `SocketClose`; `closed` says whether the host closed its socket. -/
def socketClose (s : ℤ) (closed : Bool) : Outcome Unit × Network :=
  if isSocket network s then
    (if closed then .returned () else .failed .ebadf,
      { network with g_sockets := Function.update network.g_sockets s.toNat none })
  else (.failed .ebadf, network)

def getEpollSlot (eid : ℤ) : Option ℕ :=
  let index := eid - EPOLL_ID_BASE
  if index < 0 ∨ (EPOLL_COUNT : ℤ) ≤ index then none else network.g_epolls index.toNat

/-- The loop of `EpollCreate`. -/
def freeEpoll : Option ℕ :=
  (List.range EPOLL_COUNT).find? fun index => (network.g_epolls index).isNone

/-- `EpollCreate` with good arguments. -/
def epollCreate (id : ℕ) : Outcome ℤ × Network :=
  match freeEpoll network with
  | none => (.failed .emfile, network)
  | some index =>
    (.returned (EPOLL_ID_BASE + index),
      { network with g_epolls := Function.update network.g_epolls index (some id) })

def epollDestroy (eid : ℤ) : Outcome Unit × Network :=
  match getEpollSlot network eid with
  | none => (.failed .ebadf, network)
  | some _ =>
    (.returned (), { network with
      g_epolls := Function.update network.g_epolls (eid - EPOLL_ID_BASE).toNat none })

/-! ## The other calls on descriptors -/

/-- What a call works on once it is past its checks. -/
inductive Target
  /-- The host's output, of the numbers 1 and 2. -/
  | stream (d : ℤ)
  | socket (id : ℕ)
  | file (file : File)
  deriving DecidableEq

/-- The part that the calls on an open file share: some checks, the `EXIT_IF` on a file that
is not opened, some more checks. -/
def withFile (m_files : Files) (d : ℤ) (before after : File → Option (Outcome Target)) :
    Outcome Target :=
  match getFile m_files d with
  | none => .failed .ebadf
  | some file =>
    match before file with
    | some outcome => outcome
    | none =>
      if !file.opened then .exit .notOpened
      else (after file).getD (.returned (.file file))

/-- The socket of a number. -/
def withSocket (s : ℤ) : Outcome Target :=
  match network.g_sockets s.toNat with
  | none => .failed .ebadf
  | some id => .returned (.socket id)

/-- No check. -/
def noCheck : File → Option (Outcome Target) := fun _ => none

def noDirectory : Option (Outcome Target) :=
  if file.directory then some (.exit .notImplemented) else none

/-- `EXIT_NOT_IMPLEMENTED(file->directory)` and then the one on special files. -/
def regularOnly : Option (Outcome Target) :=
  if file.directory || file.special != .none then some (.exit .notImplemented) else none

/-- `EXIT_NOT_IMPLEMENTED(nbytes > UINT_MAX)`. -/
def fitsUint (nbytes : ℕ) : File → Option (Outcome Target) := fun _ =>
  if 2 ^ 32 ≤ nbytes then some (.exit .notImplemented) else none

/-- `KernelRead` up to the access. `buf` says that the pointer is not null. -/
def kernelRead (m_files : Files) (d : ℤ) (buf : Bool) (nbytes : ℕ) : Outcome Target :=
  if d < DESCRIPTOR_MIN then .failed .eperm
  else if !buf then .failed .efault
  else if isSocket network d then withSocket network d
  else withFile m_files d noDirectory (fitsUint nbytes)

/-- `KernelWrite` up to the access. -/
def kernelWrite (m_files : Files) (d : ℤ) (buf : Bool) (nbytes : ℕ) : Outcome Target :=
  if !buf then .failed .efault
  else if d = 1 ∨ d = 2 then .returned (.stream d)
  else if d < DESCRIPTOR_MIN then .failed .ebadf
  else if isSocket network d then withSocket network d
  else withFile m_files d regularOnly (fitsUint nbytes)

/-- `KernelPread` up to the access. -/
def kernelPread (m_files : Files) (d : ℤ) (buf : Bool) (nbytes : ℕ) (offset : ℤ) : Outcome Target :=
  if d < DESCRIPTOR_MIN then .failed .eperm
  else if !buf then .failed .efault
  else if offset < 0 then .failed .einval
  else withFile m_files d noDirectory (fitsUint nbytes)

/-- `KernelPwrite` up to the access. -/
def kernelPwrite (m_files : Files) (d : ℤ) (buf : Bool) (nbytes : ℕ) (offset : ℤ) :
    Outcome Target :=
  if d < DESCRIPTOR_MIN then .failed .eperm
  else if !buf then .failed .efault
  else if offset < 0 then .failed .einval
  else withFile m_files d regularOnly (fitsUint nbytes)

/-- `KernelLseek` up to the access; its check of special files comes last. -/
def kernelLseek (m_files : Files) (d : ℤ) : Outcome Target :=
  if d < DESCRIPTOR_MIN then .failed .eperm
  else withFile m_files d noDirectory fun file =>
    if file.special != .none then some (.failed .espipe) else none

/-- `KernelFstat` up to the access. -/
def kernelFstat (m_files : Files) (d : ℤ) (sb : Bool) : Outcome Target :=
  if d < DESCRIPTOR_MIN then .failed .eperm
  else if !sb then .failed .efault
  else withFile m_files d noCheck noCheck

/-- `KernelGetdirentries` up to the access. -/
def kernelGetdirentries (m_files : Files) (fd : ℤ) (buf : Bool) (nbytes : ℤ) : Outcome Target :=
  if fd < DESCRIPTOR_MIN then .failed .ebadf
  else if !buf then .failed .efault
  else
    withFile m_files fd
      (fun file => if !file.directory ∨ nbytes < 512 then some (.failed .einval) else none)
      noCheck

/-- What `KernelClose` closes. -/
def closeTarget (m_files : Files) (d : ℤ) : Outcome Target :=
  if d < DESCRIPTOR_MIN then .failed .eperm
  else if isSocket network d then withSocket network d
  else withFile m_files d noCheck noCheck

/-- `KernelClose`. `closed` is what the host says to closing a socket. -/
def kernelClose (m_files : Files) (d : ℤ) (closed : Bool) : Outcome Unit × Files × Network :=
  match closeTarget network m_files d with
  | .failed error => (.failed error, m_files, network)
  | .exit reason => (.exit reason, m_files, network)
  | .returned (.file file) =>
    let m_files := putFile m_files d (some { file with opened := false })
    match deleteDescriptor m_files d with
    | .returned m_files => (.returned (), m_files, network)
    | .failed error => (.failed error, m_files, network)
    | .exit reason => (.exit reason, m_files, network)
  | .returned _ =>
    let result := socketClose network d closed
    (result.1, m_files, result.2)

/-! ## Steps -/

/-- The table of files, the sockets and epolls, and the number of calls so far. -/
structure State where
  files : Files
  network : Network
  calls : ℕ

/-- A call that makes or closes a descriptor, with what the host answers. -/
inductive Op
  | kernelOpen (path : Option String) (flags : BitVec 32) (host : HostAnswers)
  | kernelClose (d : ℤ) (closed : Bool)
  /-- `Socket` or `Accept`, once the host has a socket for it. -/
  | allocSocketFd
  | socketClose (s : ℤ) (closed : Bool)
  | epollCreate
  | epollDestroy (eid : ℤ)
  deriving DecidableEq

namespace State

/-- No descriptor. -/
def init : State where
  files := []
  network := { g_sockets := fun _ => none, g_epolls := fun _ => none }
  calls := 0

/-- The state after a call that came to `outcome`; none where the process has stopped. -/
def after {α : Type} (σ : State) (outcome : Outcome α) (files : Files) (network : Network) :
    Option State :=
  match outcome with
  | .exit _ => none
  | _ => some { files := files, network := network, calls := σ.calls + 1 }

def step (σ : State) : Op → Option State
  | .kernelOpen path flags host =>
    let result := kernelOpen σ.files σ.calls path flags host
    σ.after result.1 result.2 σ.network
  | .kernelClose d closed =>
    let result := kernelClose σ.network σ.files d closed
    σ.after result.1 result.2.1 result.2.2
  | .allocSocketFd =>
    let result := allocSocketFd σ.network σ.calls
    σ.after result.1 σ.files result.2
  | .socketClose s closed =>
    let result := socketClose σ.network s closed
    σ.after result.1 σ.files result.2
  | .epollCreate =>
    let result := epollCreate σ.network σ.calls
    σ.after result.1 σ.files result.2
  | .epollDestroy eid =>
    let result := epollDestroy σ.network eid
    σ.after result.1 σ.files result.2

/-- A run of calls, none where one of them stops the process. -/
def run (ops : List Op) : Option State := ops.foldlM step init

end State

end MagnusPS5.Kernel.FileSystem
