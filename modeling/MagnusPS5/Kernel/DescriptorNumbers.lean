/-
One space of numbers for files, sockets and epolls.

`FileDescriptors` (`fileSystem.cpp`) takes the least number from 3 on that has no file,
`AllocSocketFd` and `EpollCreate` (`network.cpp`) the least free one of a range of their own,
and no allocator looks at the table of another. `live_step` says what one call does to the
objects that are live; `descriptor_numbers_separate` says over which runs a number has at
most one of them.
-/
import MagnusPS5.Kernel.FileDescriptorsRun
import Mathlib.Data.List.Induction
import Mathlib.Order.Bounds.Basic

namespace MagnusPS5.Kernel.FileSystem

open Option List State

/-! ## Live objects -/

/-- What a number can stand for, with the number of the call that made it. -/
inductive Object
  | file (id : ℕ)
  | socket (id : ℕ)
  | epoll (id : ℕ)
  deriving DecidableEq

namespace Object

/-- The call that made it. -/
def id : Object → ℕ
  | .file call => call
  | .socket call => call
  | .epoll call => call

end Object

/-- The object that a call acts on. -/
def Target.object : Target → Option Object
  | .stream _ => none
  | .socket id => some (.socket id)
  | .file found => some (.file found.id)

/-- `g_sockets` at a number. -/
def socketAt (network : Network) (s : ℤ) : Option ℕ :=
  if s < 0 ∨ (SOCKET_FD_MAX : ℤ) ≤ s then none else network.g_sockets s.toNat

/-- The object is in a table under this number. -/
def Live (σ : State) (d : ℤ) : Object → Prop
  | .file id => ∃ file, getFile σ.files d = some file ∧ file.opened = true ∧ file.id = id
  | .socket id => socketAt σ.network d = some id
  | .epoll id => getEpollSlot σ.network d = some id

/-- The number that a call returns for the object it makes. -/
def creates (σ : State) : Op → Option (ℤ × Object)
  | .kernelOpen path flags host =>
    match (kernelOpen σ.files σ.calls path flags host).1 with
    | .returned d => some (d, .file σ.calls)
    | _ => none
  | .allocSocketFd =>
    match (allocSocketFd σ.network σ.calls).1 with
    | .returned s => some (s, .socket σ.calls)
    | _ => none
  | .epollCreate =>
    match (epollCreate σ.network σ.calls).1 with
    | .returned eid => some (eid, .epoll σ.calls)
    | _ => none
  | _ => none

/-- A call of this run made the object and returned the number. -/
def Created (ops : List Op) (d : ℤ) (a : Object) : Prop :=
  ∃ σ op, State.run (ops.take a.id) = some σ ∧ ops[a.id]? = some op ∧ creates σ op = some (d, a)

/-- What the claim on numbers says of the state after the calls `ops`. -/
structure Separate (ops : List Op) (σ : State) : Prop where
  unique : ∀ d a b, Live σ d a → Live σ d b → a = b
  created : ∀ d a, Live σ d a → Created ops d a
  read : ∀ d a buf nbytes target, Live σ d a →
    kernelRead σ.network σ.files d buf nbytes = .returned target → target.object = some a
  write : ∀ d a buf nbytes target, Live σ d a →
    kernelWrite σ.network σ.files d buf nbytes = .returned target → target.object = some a
  close : ∀ d a target, Live σ d a →
    closeTarget σ.network σ.files d = .returned target → target.object = some a
  closes : ∀ d target closed τ, closeTarget σ.network σ.files d = .returned target →
    σ.step (.kernelClose d closed) = some τ → ∀ e b, Live τ e b ↔ Live σ e b ∧ e ≠ d

/-- The condition on the tables before a call: the least number that is free in the table
the call puts its object into does not stand for a live object of another table. -/
def Free (σ : State) : Op → Prop
  | .kernelOpen path flags host => opens path flags host = true →
      ∀ d, IsLeast {d | DESCRIPTOR_MIN ≤ d ∧ getFile σ.files d = none} d →
        socketAt σ.network d = none ∧ getEpollSlot σ.network d = none
  | .allocSocketFd =>
    ∀ fd, IsLeast {fd | SOCKET_FD_MIN ≤ fd ∧ fd < SOCKET_FD_MAX ∧
        σ.network.g_sockets fd = none} fd →
      ∀ file, getFile σ.files fd = some file → file.opened = false
  | .epollCreate =>
    ∀ index, IsLeast {index | index < EPOLL_COUNT ∧ σ.network.g_epolls index = none} index →
      ∀ file, getFile σ.files (EPOLL_ID_BASE + index) = some file → file.opened = false
  | _ => True

/-! ## The allocators -/

variable {s d e : ℤ} {σ τ : State} {a b : Object} {ops : List Op}
  {fd index : ℕ} {closed : Bool} {op : Op}

section Allocators

variable {network : Network}

theorem isSocket_iff : isSocket network s = true ↔ ∃ id, socketAt network s = some id := by
  unfold isSocket socketAt
  split
  · simp
  · exact isSome_iff_exists

theorem withSocket_of_socketAt {id : ℕ} (h : socketAt network s = some id) :
    withSocket network s = .returned (.socket id) := by
  unfold socketAt at h
  split at h
  · cases h
  · rw [withSocket, h]

theorem freeSocket_eq_some : freeSocket network = some fd ↔
    IsLeast {fd | SOCKET_FD_MIN ≤ fd ∧ fd < SOCKET_FD_MAX ∧ network.g_sockets fd = none} fd := by
  rw [freeSocket, find?_range'_eq_some]
  simp only [IsLeast, mem_lowerBounds, Set.mem_ofPred_eq, mem_range'_1,
    isNone_iff_eq_none, Bool.not_eq_true', isNone_eq_false_iff,
    isSome_iff_ne_none]
  constructor
  · rintro ⟨hnone, ⟨hmin, hmax⟩, hbefore⟩
    refine ⟨⟨hmin, by omega, hnone⟩, fun other hother => ?_⟩
    by_contra hlt
    exact hbefore other hother.1 (not_le.mp hlt) hother.2.2
  · rintro ⟨⟨hmin, hmax, hnone⟩, hleast⟩
    refine ⟨hnone, ⟨hmin, by omega⟩, fun other hother hlt hfree => ?_⟩
    have := hleast other ⟨hother, by omega, hfree⟩
    omega

theorem freeEpoll_eq_some : freeEpoll network = some index ↔
    IsLeast {index | index < EPOLL_COUNT ∧ network.g_epolls index = none} index := by
  rw [freeEpoll, find?_range_eq_some]
  simp only [IsLeast, mem_lowerBounds, Set.mem_ofPred_eq, mem_range,
    isNone_iff_eq_none, Bool.not_eq_true', isNone_eq_false_iff,
    isSome_iff_ne_none]
  constructor
  · rintro ⟨hnone, hlt, hbefore⟩
    refine ⟨⟨hlt, hnone⟩, fun other hother => ?_⟩
    by_contra hlt'
    exact hbefore other (not_le.mp hlt') hother.2
  · rintro ⟨⟨hlt, hnone⟩, hleast⟩
    refine ⟨hnone, hlt, fun other hother hfree => ?_⟩
    have := hleast other ⟨by omega, hfree⟩
    omega

theorem getEpollSlot_of_lt (h : d < SOCKET_FD_MAX) : getEpollSlot network d = none := by
  rw [getEpollSlot]
  exact if_pos (.inl (by rw [EPOLL_ID_BASE]; omega))

theorem socketAt_of_le (h : (SOCKET_FD_MAX : ℤ) ≤ d) : socketAt network d = none := by
  rw [socketAt, if_pos (.inr h)]

theorem getEpollSlot_base (index : ℕ) (h : index < EPOLL_COUNT) :
    getEpollSlot network (EPOLL_ID_BASE + index) = network.g_epolls index := by
  rw [getEpollSlot]
  have hindex : ((EPOLL_ID_BASE : ℕ) : ℤ) + index - EPOLL_ID_BASE = index := by omega
  simp only [hindex]
  rw [if_neg (by omega), Int.toNat_natCast]

theorem socketAt_nat (h : fd < SOCKET_FD_MAX) : socketAt network fd = network.g_sockets fd := by
  rw [socketAt, if_neg (by omega), Int.toNat_natCast]

end Allocators

/-! ## One call -/

/-- A call that creates nothing adds no live object; one that creates an object adds this
one only. -/
inductive LiveStep (σ τ : State) : Option (ℤ × Object) → Prop
  | created (d : ℤ) (a : Object) (hid : a.id = σ.calls)
      (hlive : ∀ e b, Live τ e b ↔ (e = d ∧ b = a) ∨ Live σ e b) : LiveStep σ τ (some (d, a))
  | other (hlive : ∀ e b, Live τ e b → Live σ e b) : LiveStep σ τ none

theorem Live.congr (hlive : Live τ d a)
    (hfiles : ∀ e, getFile τ.files e = getFile σ.files e) (hnetwork : τ.network = σ.network) :
    Live σ d a := by
  cases a with
  | file id => simpa only [Live, hfiles] using hlive
  | socket | epoll => simpa only [Live, hnetwork] using hlive

theorem socketAt_update (network : Network) (h : fd < SOCKET_FD_MAX) (new : Option ℕ) (e : ℤ) :
    socketAt { network with g_sockets := Function.update network.g_sockets fd new } e
      = if e = fd then new else socketAt network e := by
  unfold socketAt
  dsimp only
  by_cases hrange : e < 0 ∨ (SOCKET_FD_MAX : ℤ) ≤ e
  · rw [if_pos hrange, if_pos hrange, if_neg (by omega)]
  · rw [if_neg hrange, if_neg hrange, Function.update_apply]
    exact if_congr (by omega) rfl rfl

theorem getEpollSlot_update (network : Network) (h : index < EPOLL_COUNT) (new : Option ℕ) (e : ℤ) :
    getEpollSlot { network with g_epolls := Function.update network.g_epolls index new } e
      = if e = (EPOLL_ID_BASE : ℤ) + index then new else getEpollSlot network e := by
  unfold getEpollSlot
  dsimp only
  by_cases hrange : e - EPOLL_ID_BASE < 0 ∨ (EPOLL_COUNT : ℤ) ≤ e - EPOLL_ID_BASE
  · rw [if_pos hrange, if_pos hrange, if_neg (by omega)]
  · rw [if_neg hrange, if_neg hrange, Function.update_apply]
    exact if_congr (by omega) rfl rfl

theorem kernelOpen_liveStep {path : Option String} {flags : BitVec 32}
    {host : HostAnswers} (h : σ.step (.kernelOpen path flags host) = some τ) :
    LiveStep σ τ (creates σ (.kernelOpen path flags host)) := by
  obtain ⟨rfl, hexit⟩ := after_eq_some h
  have hspec := kernelOpen_spec σ.files σ.calls path flags host
  have hnone := (createDescriptor_spec σ.files σ.calls).2.1
  unfold creates
  dsimp only at hexit ⊢
  generalize kernelOpen σ.files σ.calls path flags host = result at hspec hexit ⊢
  rcases hspec with
    ⟨d, file, m_files', hopens, hleak, hd, hopened, hid, hget⟩ |
    ⟨error, m_files', hopens, hleak, hget⟩ | ⟨file, m_files', hopens, hleak, hopened, hget⟩ |
    ⟨reason, m_files', hopens, hleak, hreason⟩
  · refine .created d (.file σ.calls) rfl fun e b => ?_
    cases b with
    | file id =>
      simp only [Live, hget]
      by_cases he : e = d
      · rw [if_pos he, he]
        constructor
        · rintro ⟨found, hfound, -, hfid⟩
          rw [← some.inj hfound, hid] at hfid
          exact .inl ⟨rfl, by rw [hfid]⟩
        · rintro (⟨-, hsame⟩ | ⟨found, hfound, -⟩)
          · exact ⟨file, rfl, hopened, by rw [hid, Object.file.inj hsame]⟩
          · rw [hd, hnone] at hfound
            cases hfound
      · rw [if_neg he]
        simp [he]
    | socket | epoll => simp [Live]
  · exact .other fun e b hlive => hlive.congr hget rfl
  · refine .other fun e b hlive => ?_
    cases b with
    | file id =>
      obtain ⟨found, hfound, hfopened, hid⟩ := hlive
      rw [hget] at hfound
      split_ifs at hfound
      · rw [← some.inj hfound, hopened] at hfopened
        cases hfopened
      · exact ⟨found, hfound, hfopened, hid⟩
    | socket | epoll => exact hlive
  · exact absurd rfl (hexit reason)

theorem allocSocketFd_liveStep (h : σ.step .allocSocketFd = some τ) :
    LiveStep σ τ (creates σ .allocSocketFd) := by
  obtain ⟨rfl, -⟩ := after_eq_some h
  unfold creates allocSocketFd
  cases hfree : freeSocket σ.network with
  | none => exact .other fun e b hlive => hlive
  | some fd =>
    obtain ⟨⟨-, hmax, hnone⟩, -⟩ := freeSocket_eq_some.mp hfree
    refine .created fd (.socket σ.calls) rfl fun e b => ?_
    cases b with
    | file id => simp [Live]
    | socket id =>
      simp only [Live, socketAt_update σ.network hmax]
      by_cases he : e = fd
      · rw [if_pos he, he, socketAt_nat hmax, hnone]
        simp [eq_comm]
      · rw [if_neg he]
        simp [he]
    | epoll id => simp [Live, getEpollSlot]

theorem epollCreate_liveStep (h : σ.step .epollCreate = some τ) :
    LiveStep σ τ (creates σ .epollCreate) := by
  obtain ⟨rfl, -⟩ := after_eq_some h
  unfold creates epollCreate
  cases hfree : freeEpoll σ.network with
  | none => exact .other fun e b hlive => hlive
  | some index =>
    obtain ⟨⟨hlt, hnone⟩, -⟩ := freeEpoll_eq_some.mp hfree
    refine .created (EPOLL_ID_BASE + index) (.epoll σ.calls) rfl fun e b => ?_
    cases b with
    | file id => simp [Live]
    | socket id => simp [Live, socketAt]
    | epoll id =>
      simp only [Live, getEpollSlot_update σ.network hlt]
      by_cases he : e = (EPOLL_ID_BASE : ℤ) + index
      · rw [if_pos he, he, getEpollSlot_base index hlt, hnone]
        simp [eq_comm]
      · rw [if_neg he]
        exact ⟨.inr, fun h => h.resolve_left fun hnew => he hnew.1⟩

theorem live_of_socketClose (hlive : Live τ e b) (hfiles : τ.files = σ.files)
    (hnetwork : τ.network = (socketClose σ.network s closed).2) : Live σ e b := by
  unfold socketClose at hnetwork
  by_cases hsocket : isSocket σ.network s = true
  · rw [if_pos hsocket] at hnetwork
    cases b with
    | file id => simpa only [Live, hfiles] using hlive
    | socket id =>
      obtain ⟨found, hfound⟩ := isSocket_iff.mp hsocket
      have hrange : ¬ (s < 0 ∨ (SOCKET_FD_MAX : ℤ) ≤ s) := by
        intro hout
        rw [socketAt, if_pos hout] at hfound
        cases hfound
      simp only [Live, hnetwork] at hlive
      rw [socketAt_update σ.network (by omega)] at hlive
      split_ifs at hlive
      exact hlive
    | epoll id => simpa only [Live, hnetwork, getEpollSlot] using hlive
  · rw [if_neg hsocket] at hnetwork
    exact hlive.congr (by simp [hfiles]) hnetwork

theorem kernelClose_live
    (h : σ.step (.kernelClose d closed) = some τ) (hlive : Live τ e b) : Live σ e b := by
  obtain ⟨rfl, -⟩ := after_eq_some h
  rcases kernelClose_files σ.network σ.files d closed with
    ⟨file, -, -, -, hnetwork, hget⟩ | ⟨hother, heq⟩
  · cases b with
    | file id =>
      obtain ⟨found, hfound, hopened⟩ := hlive
      rw [hget] at hfound
      split_ifs at hfound
      exact ⟨found, hfound, hopened⟩
    | socket | epoll => simpa only [Live, hnetwork] using hlive
  · -- no file is closed: it is a socket, or nothing
    cases htarget : closeTarget σ.network σ.files d with
    | failed | exit =>
      refine hlive.congr (fun e => by dsimp only; rw [heq]) ?_
      simp [kernelClose, htarget]
    | returned target =>
      refine live_of_socketClose (s := d) hlive heq (?_ : _ = (socketClose _ _ closed).2)
      cases target with
      | file file => exact absurd htarget (hother file)
      | stream | socket => simp [kernelClose, htarget]

theorem epollDestroy_live {eid : ℤ} (h : σ.step (.epollDestroy eid) = some τ)
    (hlive : Live τ e b) : Live σ e b := by
  obtain ⟨rfl, -⟩ := after_eq_some h
  unfold epollDestroy at hlive
  cases hslot : getEpollSlot σ.network eid with
  | none =>
    rw [hslot] at hlive
    exact hlive
  | some found =>
    rw [hslot] at hlive
    have hrange : ¬ (eid - EPOLL_ID_BASE < 0 ∨ (EPOLL_COUNT : ℤ) ≤ eid - EPOLL_ID_BASE) := by
      intro hout
      rw [getEpollSlot] at hslot
      simp only [if_pos hout] at hslot
      cases hslot
    cases b with
    | file id => exact hlive
    | socket id => simpa only [Live, socketAt] using hlive
    | epoll id =>
      simp only [Live] at hlive
      rw [getEpollSlot_update σ.network (by omega)] at hlive
      split_ifs at hlive
      exact hlive

/-- **One call** and the objects that are live. -/
theorem live_step (h : σ.step op = some τ) : LiveStep σ τ (creates σ op) := by
  cases op with
  | kernelOpen path flags host => exact kernelOpen_liveStep h
  | kernelClose d closed => exact .other fun e b => kernelClose_live h
  | allocSocketFd => exact allocSocketFd_liveStep h
  | socketClose s closed =>
    obtain ⟨rfl, -⟩ := after_eq_some h
    exact .other fun e b hlive => live_of_socketClose hlive rfl rfl
  | epollCreate => exact epollCreate_liveStep h
  | epollDestroy eid => exact .other fun e b => epollDestroy_live h

/-! ## The condition on a call -/

theorem createDescriptor_isLeast (m_files : Files) (id : ℕ) :
    IsLeast {d | DESCRIPTOR_MIN ≤ d ∧ getFile m_files d = none}
      (createDescriptor m_files id).1 := by
  obtain ⟨hmin, hnone, hbefore, -⟩ := createDescriptor_spec m_files id
  refine ⟨⟨hmin, hnone⟩, fun e he => ?_⟩
  by_contra hlt
  exact hbefore e he.1 (not_le.mp hlt) he.2

variable {n nbytes : ℕ} {object : Object} {buf : Bool}

theorem free_iff_of_some {number : ℕ → ℤ} (hsocket : socketAt σ.network (number n) = none)
    (hepoll : getEpollSlot σ.network (number n) = none) :
    (∀ m, some n = some m → ∀ file, getFile σ.files (number m) = some file →
      file.opened = false) ↔
      ∀ d a, some (number n, object) = some (d, a) → ∀ b, ¬ Live σ d b := by
  constructor
  · rintro hfile d a hcreate b hlive
    cases hcreate
    cases b with
    | file id =>
      obtain ⟨found, hfound, hopened, -⟩ := hlive
      rw [hfile n rfl found hfound] at hopened
      cases hopened
    | socket id => rw [Live, hsocket] at hlive; cases hlive
    | epoll id => rw [Live, hepoll] at hlive; cases hlive
  · rintro hlive m hm file hfile
    cases hm
    by_contra hopened
    exact hlive _ _ rfl (.file file.id) ⟨file, hfile, by simpa using hopened, rfl⟩

theorem free_iff : Free σ op ↔ ∀ d a, creates σ op = some (d, a) → ∀ b, ¬ Live σ d b := by
  cases op with
  | kernelOpen path flags host =>
    unfold Free creates
    dsimp only
    have hspec := kernelOpen_spec σ.files σ.calls path flags host
    have hleast := createDescriptor_isLeast σ.files σ.calls
    generalize kernelOpen σ.files σ.calls path flags host = result at hspec ⊢
    rcases hspec with
      ⟨d, file, m_files', hopens, hleak, rfl, hopened, hid, hget⟩ |
      ⟨error, m_files', hopens, hleak, hget⟩ | ⟨file, m_files', hopens, hleak, hopened, hget⟩ |
      ⟨reason, m_files', hopens, hleak, hreason⟩
    · rw [hopens]
      constructor
      · rintro hfree d a hcreate b hlive
        cases hcreate
        obtain ⟨hsocket, hepoll⟩ := hfree rfl _ hleast
        cases b with
        | file id =>
          obtain ⟨found, hfound, -⟩ := hlive
          rw [hleast.1.2] at hfound
          cases hfound
        | socket id => rw [Live, hsocket] at hlive; cases hlive
        | epoll id => rw [Live, hepoll] at hlive; cases hlive
      · rintro hfree - d hd
        rw [hd.unique hleast]
        constructor
        · exact eq_none_iff_forall_ne_some.mpr fun id h =>
            hfree _ _ rfl (.socket id) h
        · exact eq_none_iff_forall_ne_some.mpr fun id h =>
            hfree _ _ rfl (.epoll id) h
    · simp [hopens]
    · simp [hopens]
    · simp [hopens]
  | allocSocketFd =>
    unfold Free creates allocSocketFd
    simp only [← freeSocket_eq_some]
    cases hfree : freeSocket σ.network with
    | none => simp
    | some fd =>
      obtain ⟨⟨-, hmax, hnone⟩, -⟩ := freeSocket_eq_some.mp hfree
      exact free_iff_of_some (by rw [socketAt_nat hmax, hnone]) (getEpollSlot_of_lt (by omega))
  | epollCreate =>
    unfold Free creates epollCreate
    simp only [← freeEpoll_eq_some]
    cases hfree : freeEpoll σ.network with
    | none => simp
    | some index =>
      obtain ⟨⟨hlt, hnone⟩, -⟩ := freeEpoll_eq_some.mp hfree
      exact free_iff_of_some (socketAt_of_le (by rw [EPOLL_ID_BASE]; omega))
        (by rw [getEpollSlot_base index hlt, hnone])
  | kernelClose | socketClose | epollDestroy => simp [Free, creates]

theorem creates_min (h : creates σ op = some (d, a)) : DESCRIPTOR_MIN ≤ d ∧ a.id = σ.calls := by
  cases op with
  | kernelOpen path flags host =>
    unfold creates at h
    dsimp only at h
    have hspec := kernelOpen_spec σ.files σ.calls path flags host
    have hleast := createDescriptor_isLeast σ.files σ.calls
    generalize kernelOpen σ.files σ.calls path flags host = result at hspec h
    rcases hspec with ⟨e, file, m_files', hopens, hleak, rfl, hopened, hid, hget⟩ | _ | _ | _
    · cases h
      exact ⟨hleast.1.1, rfl⟩
    · cases h
    · cases h
    · cases h
  | allocSocketFd =>
    unfold creates allocSocketFd at h
    cases hfree : freeSocket σ.network with
    | none => simp [hfree] at h
    | some fd =>
      simp only [hfree, some.injEq, Prod.mk.injEq] at h
      obtain ⟨⟨hmin, -⟩, -⟩ := freeSocket_eq_some.mp hfree
      rw [SOCKET_FD_MIN] at hmin
      rw [DESCRIPTOR_MIN]
      exact ⟨by omega, by rw [← h.2, Object.id]⟩
  | epollCreate =>
    unfold creates epollCreate at h
    cases hfree : freeEpoll σ.network with
    | none => simp [hfree] at h
    | some index =>
      simp only [hfree, some.injEq, Prod.mk.injEq] at h
      rw [EPOLL_ID_BASE, SOCKET_FD_MAX] at h
      rw [DESCRIPTOR_MIN]
      exact ⟨by omega, by rw [← h.2, Object.id]⟩
  | kernelClose | socketClose | epollDestroy => cases h

theorem after_of_creates {outcome : Outcome ℤ} (h : (match outcome with
      | .returned d => some (d, object)
      | _ => none) = some (d, a)) (files : Files) (network : Network) :
    ∃ τ, σ.after outcome files network = some τ := by
  cases outcome with
  | exit reason => cases h
  | returned d | failed error => exact ⟨_, rfl⟩

theorem step_of_creates (h : creates σ op = some (d, a)) : ∃ τ, σ.step op = some τ := by
  cases op with
  | kernelOpen | allocSocketFd | epollCreate => exact after_of_creates h _ _
  | kernelClose | socketClose | epollDestroy => cases h

/-! ## Which object a call acts on -/

/-- The part of the claim that is about the tables alone. -/
structure Unique (σ : State) : Prop where
  unique : ∀ d a b, Live σ d a → Live σ d b → a = b
  low : ∀ d a, Live σ d a → DESCRIPTOR_MIN ≤ d

namespace Unique

/-- Checks before a file is reached never succeed by themselves. -/
def Refuses (check : File → Option (Outcome Target)) : Prop :=
  ∀ file target, check file ≠ some (.returned target)

variable {target : Target} {before after : File → Option (Outcome Target)}

theorem live_of_withFile (hbefore : Refuses before) (hafter : Refuses after)
    (h : withFile σ.files d before after = .returned target) :
    ∃ file, target = .file file ∧ Live σ d (.file file.id) := by
  have htarget : ∃ file, target = .file file := by
    unfold withFile at h
    cases hfile : getFile σ.files d with
    | none => simp [hfile] at h
    | some file =>
      rw [hfile] at h
      dsimp only at h
      cases hb : before file with
      | some outcome =>
        rw [hb] at h
        exact absurd (hb.trans (congrArg some h)) (hbefore file target)
      | none =>
        rw [hb] at h
        split_ifs at h
        cases ha : after file with
        | some outcome =>
          rw [ha] at h
          exact absurd (ha.trans (congrArg some h)) (hafter file target)
        | none =>
          rw [ha] at h
          exact ⟨file, (Outcome.returned.inj h).symm⟩
  obtain ⟨file, rfl⟩ := htarget
  obtain ⟨hget, hopened⟩ := getFile_of_withFile hbefore hafter h
  exact ⟨file, rfl, file, hget, hopened, rfl⟩

theorem live_of_dispatch (hbefore : Refuses before) (hafter : Refuses after)
    (h : (if isSocket σ.network d then withSocket σ.network d
      else withFile σ.files d before after) = .returned target) :
    ∃ a, target.object = some a ∧ Live σ d a := by
  split_ifs at h with hsocket
  · obtain ⟨id, hid⟩ := isSocket_iff.mp hsocket
    rw [withSocket_of_socketAt hid] at h
    cases h
    exact ⟨.socket id, rfl, hid⟩
  · obtain ⟨file, rfl, hlive⟩ := live_of_withFile hbefore hafter h
    exact ⟨.file file.id, rfl, hlive⟩

theorem noDirectory_refuses : Refuses noDirectory := by
  intro file target
  unfold noDirectory
  split <;> simp

theorem regularOnly_refuses : Refuses regularOnly := by
  intro file target
  unfold regularOnly
  split <;> simp

theorem fitsUint_refuses (nbytes : ℕ) : Refuses (fitsUint nbytes) := by
  intro file target
  unfold fitsUint
  split <;> simp

theorem noCheck_refuses : Refuses noCheck := by
  intro file target
  simp [noCheck]

variable (h : Unique σ)
include h

theorem read
    (ha : Live σ d a) (hread : kernelRead σ.network σ.files d buf nbytes = .returned target) :
    target.object = some a := by
  unfold kernelRead at hread
  rw [if_neg (not_lt.mpr (h.low d a ha))] at hread
  by_cases hbuf : (!buf) = true
  · rw [if_pos hbuf] at hread
    cases hread
  · rw [if_neg hbuf] at hread
    obtain ⟨b, hb, hlive⟩ := live_of_dispatch noDirectory_refuses (fitsUint_refuses _) hread
    rw [hb, h.unique d a b ha hlive]

theorem write
    (ha : Live σ d a) (hwrite : kernelWrite σ.network σ.files d buf nbytes = .returned target) :
    target.object = some a := by
  have hlow := h.low d a ha
  unfold kernelWrite at hwrite
  by_cases hbuf : (!buf) = true
  · rw [if_pos hbuf] at hwrite
    cases hwrite
  · rw [if_neg hbuf, if_neg (by rw [DESCRIPTOR_MIN] at hlow; omega),
      if_neg (not_lt.mpr hlow)] at hwrite
    obtain ⟨b, hb, hlive⟩ := live_of_dispatch regularOnly_refuses (fitsUint_refuses _) hwrite
    rw [hb, h.unique d a b ha hlive]

omit h in
theorem live_of_closeTarget (hclose : closeTarget σ.network σ.files d = .returned target) :
    ∃ a, target.object = some a ∧ Live σ d a := by
  unfold closeTarget at hclose
  split_ifs at hclose with hlow hsocket
  · exact live_of_dispatch noCheck_refuses noCheck_refuses (by rw [if_pos hsocket]; exact hclose)
  · exact live_of_dispatch noCheck_refuses noCheck_refuses (by rw [if_neg hsocket]; exact hclose)

theorem close (ha : Live σ d a) (hclose : closeTarget σ.network σ.files d = .returned target) :
    target.object = some a := by
  obtain ⟨b, hb, hlive⟩ := live_of_closeTarget hclose
  rw [hb, h.unique d a b ha hlive]

/-- A number that `KernelClose` gets through stands for nothing afterwards; the others stand
for what they did. -/
theorem closes (hclose : closeTarget σ.network σ.files d = .returned target)
    (hstep : σ.step (.kernelClose d closed) = some τ) (e : ℤ) (b : Object) :
    Live τ e b ↔ Live σ e b ∧ e ≠ d := by
  obtain ⟨a, htarget, hlive⟩ := live_of_closeTarget hclose
  obtain ⟨rfl, -⟩ := after_eq_some hstep
  -- another object has another number
  have hother : ∀ b, b ≠ a → (Live σ e b ↔ Live σ e b ∧ e ≠ d) := by
    refine fun b hb => ⟨fun hlive' => ⟨hlive', ?_⟩, And.left⟩
    rintro rfl
    exact hb (h.unique e b a hlive' hlive)
  cases target with
  | stream s => cases htarget
  | file file =>
    cases htarget
    rcases kernelClose_files σ.network σ.files d closed with
      ⟨found, -, -, -, hnetwork, hget⟩ | ⟨hnot, -⟩
    · cases b with
      | file id =>
        simp only [Live, hget]
        by_cases he : e = d
        · simp [he]
        · simp [he]
      | socket id =>
        simp only [Live, hnetwork]
        exact hother (.socket id) nofun
      | epoll id =>
        simp only [Live, hnetwork]
        exact hother (.epoll id) nofun
    · exact absurd hclose (hnot file)
  | socket id =>
    cases htarget
    have hsocket : isSocket σ.network d = true := isSocket_iff.mpr ⟨id, hlive⟩
    have hrange : ¬ (d < 0 ∨ (SOCKET_FD_MAX : ℤ) ≤ d) := by
      intro hout
      rw [Live, socketAt, if_pos hout] at hlive
      cases hlive
    simp only [kernelClose, hclose, socketClose, hsocket, if_true]
    cases b with
    | socket id' =>
      simp only [Live]
      rw [socketAt_update σ.network (by omega), Int.toNat_of_nonneg (by omega)]
      by_cases he : e = d
      · simp [he]
      · simp [he]
    | file id' => exact hother (.file id') nofun
    | epoll id' => exact hother (.epoll id') nofun

end Unique

/-! ## Runs -/

theorem not_live_init (d : ℤ) (a : Object) : ¬ Live init d a := by
  cases a with
  | file id =>
    rintro ⟨file, hfile, -⟩
    rw [init, getFile] at hfile
    split at hfile <;> simp at hfile
  | socket id => simp [Live, socketAt, init]
  | epoll id => simp [Live, getEpollSlot, init]

theorem calls_run (h : run ops = some σ) : σ.calls = ops.length := by
  rw [← ops.take_length] at h ⊢
  refine invariant_of_step (fun ops σ => σ.calls = ops.length) rfl ?_ _ σ h
  intro n before after op _ _ hstep hcalls
  rw [length_append, length_singleton, ← hcalls]
  cases op <;> exact (after_eq_some hstep).1 ▸ rfl

theorem Created.lt (h : Created ops d a) : a.id < ops.length := by
  obtain ⟨σ, op, -, hop, -⟩ := h
  exact (List.getElem?_eq_some_iff.mp hop).1

theorem Created.append (h : Created ops d a) (more : List Op) : Created (ops ++ more) d a := by
  have hlt := h.lt
  obtain ⟨σ, op, hrun, hop, hcreate⟩ := h
  refine ⟨σ, op, ?_, ?_, hcreate⟩
  · rwa [take_append_of_le_length hlt.le]
  · rwa [getElem?_append_left hlt]

/-- What a run keeps while its calls give no number away twice. -/
structure Inv (ops : List Op) (σ : State) : Prop extends Unique σ where
  created : ∀ d a, Live σ d a → Created ops d a

theorem Inv.separate (h : Inv ops σ) : Separate ops σ where
  unique := h.unique
  created := h.created
  read _ _ _ _ _ := h.toUnique.read
  write _ _ _ _ _ := h.toUnique.write
  close _ _ _ := h.toUnique.close
  closes _ _ _ _ := h.toUnique.closes

theorem inv_init : Inv [] init where
  unique d a _ ha := absurd ha (not_live_init d a)
  low d a ha := absurd ha (not_live_init d a)
  created d a ha := absurd ha (not_live_init d a)

/-- **One more call** whose number is free. -/
theorem Inv.step (h : Inv ops σ)
    (hrun : run ops = some σ) (hfree : Free σ op) (hstep : σ.step op = some τ) :
    Inv (ops ++ [op]) τ := by
  rw [free_iff] at hfree
  have hlive := live_step hstep
  cases hcreate : creates σ op with
  | none =>
    rw [hcreate] at hlive
    rcases hlive with _ | ⟨hlive⟩
    exact
      { unique := fun d a b ha hb => h.unique d a b (hlive d a ha) (hlive d b hb)
        low := fun d a ha => h.low d a (hlive d a ha)
        created := fun d a ha => (h.created d a (hlive d a ha)).append [op] }
  | some made =>
    rw [hcreate] at hlive
    rcases hlive with ⟨d, a, hid, hlive⟩ | _
    have hnew := hfree d a hcreate
    have hcalls := calls_run hrun
    refine { unique := fun e b c hb hc => ?_, low := fun e b hb => ?_, created := fun e b hb => ?_ }
    · rw [hlive] at hb hc
      rcases hb with ⟨rfl, rfl⟩ | hb
      · rcases hc with ⟨-, rfl⟩ | hc
        · rfl
        · exact absurd hc (hnew c)
      · rcases hc with ⟨rfl, rfl⟩ | hc
        · exact absurd hb (hnew b)
        · exact h.unique e b c hb hc
    · rcases (hlive e b).mp hb with ⟨rfl, rfl⟩ | hb
      · exact (creates_min hcreate).1
      · exact h.low e b hb
    · rcases (hlive e b).mp hb with ⟨rfl, rfl⟩ | hb
      · refine ⟨σ, op, ?_, ?_, hcreate⟩
        · rwa [hid, hcalls, take_append_of_le_length le_rfl, take_length]
        · rw [hid, hcalls, getElem?_concat_length]
      · exact (h.created e b hb).append [op]

theorem inv_run (hfree : ∀ n σ op, run (ops.take n) = some σ →
    ops[n]? = some op → Free σ op) (n : ℕ) (σ : State) (h : run (ops.take n) = some σ) :
    Inv (ops.take n) σ :=
  invariant_of_step Inv inv_init (fun m before _ op hrun hop hstep h =>
    h.step hrun (hfree m before op hrun hop) hstep) n σ h

theorem free_of_separate (hall : ∀ n σ, run (ops.take n) = some σ → Separate (ops.take n) σ)
    (hrun : run (ops.take n) = some σ) (hop : ops[n]? = some op) : Free σ op := by
  rw [free_iff]
  intro d a hcreate b hb
  obtain ⟨τ, hstep⟩ := step_of_creates hcreate
  have hnext : run (ops.take (n + 1)) = some τ := by
    rw [run_take_succ hop, hrun, bind_some, hstep]
  have hlive := live_step hstep
  rw [hcreate] at hlive
  rcases hlive with ⟨_, _, hid, hlive⟩ | _
  have hsame := (hall _ τ hnext).unique d a b ((hlive d a).mpr (.inl ⟨rfl, rfl⟩))
    ((hlive d b).mpr (.inr hb))
  -- but the other object is older
  have hlt := ((hall n σ hrun).created d b hb).lt
  rw [← hsame, hid, calls_run hrun] at hlt
  exact absurd hlt (lt_irrefl _)

/-- **Descriptor numbers.** Over every run, a number has at most one live object, and the
calls act on the object whose creation returned it, iff no call finds the least free number
of its own table taken by another one. -/
theorem descriptor_numbers_separate (ops : List Op) :
    (∀ n σ, State.run (ops.take n) = some σ → Separate (ops.take n) σ) ↔
      ∀ n σ op, State.run (ops.take n) = some σ → ops[n]? = some op → Free σ op :=
  ⟨fun hall _ _ _ hrun hop => free_of_separate hall hrun hop,
    fun hfree n σ hrun => (inv_run hfree n σ hrun).separate⟩

/-! ## The 126th file -/

/-- A host that opens the file. -/
def plainHost : HostAnswers where
  real_name := "x"
  dir_exist := false
  file_exist := true
  dents := []
  created := true
  opened := true
  truncated := true
  invalid := false

/-- Opens a plain file for reading. -/
def plainOpen : Op := .kernelOpen (some "/app0/x") 0x0#32 plainHost

/-- A table that is full up to its length, all of it opened. -/
def plainFiles (n : ℕ) : Files := (List.range n).map fun index =>
  some { id := index, name := "/app0/x", real_name := "x", opened := true }

theorem plainFiles_succ (n : ℕ) : plainFiles (n + 1)
    = plainFiles n ++ [some { id := n, name := "/app0/x", real_name := "x", opened := true }] := by
  simp [plainFiles, range_succ]

theorem kernelOpen_plain (n : ℕ) :
    kernelOpen (plainFiles n) n (some "/app0/x") 0x0#32 plainHost
      = (.returned (n + DESCRIPTOR_MIN), plainFiles (n + 1)) := by
  have hlength : (plainFiles n).length = n := by simp [plainFiles]
  have hnew : createDescriptor (plainFiles n) n
      = (n + DESCRIPTOR_MIN, plainFiles n ++ [some { id := n }]) := by
    have hfull : (plainFiles n).findIdx? Option.isNone = none := by
      simp [findIdx?_eq_none_iff, plainFiles]
    rw [createDescriptor, hfull, hlength]
    simp only [Prod.mk.injEq, and_true]
    omega
  have hget : ∀ file : File, getFile (plainFiles n ++ [some file]) (n + DESCRIPTOR_MIN)
      = some file := by
    intro file
    rw [getFile_slot, getElem?_append_right (by omega), hlength]
    simp
  have hput : ∀ file new : File,
      putFile (plainFiles n ++ [some file]) (n + DESCRIPTOR_MIN) (some new)
        = plainFiles n ++ [some new] := by
    intro file new
    rw [putFile, slotOf_eq_some.mpr rfl]
    simp [hlength]
  have hflags : decodeFlags 0x0#32
      = { mode := some .read, append := false, fsync := false, creat := false, trunc := false,
          excl := false, dsync := false, directory := false } := by
    decide
  have hdevice : isRandomDevice "/app0/x" = false := by decide
  rw [plainFiles_succ]
  simp [kernelOpen, hflags, hnew, hget, hput, describe, hdevice, openExisting, plainHost]

theorem run_plain (n : ℕ) : run (replicate n plainOpen)
    = some { files := plainFiles n, network := init.network, calls := n } := by
  induction n with
  | zero => rfl
  | succ n ih =>
    rw [replicate_succ', State.run, foldlM_append, ← run, ih]
    simp [State.step, plainOpen, kernelOpen_plain, State.after]

/-- **126 open files and a socket**: number 128 is the last of the files, and the socket. -/
theorem socket_takes_file_number : ∃ σ,
    State.run (List.replicate 126 plainOpen ++ [.allocSocketFd]) = some σ ∧
    Live σ 128 (.file 125) ∧ Live σ 128 (.socket 126) ∧
    kernelRead σ.network σ.files 128 true 1 = .returned (.socket 126) ∧
    ¬ Separate (List.replicate 126 plainOpen ++ [.allocSocketFd]) σ := by
  have hfree : freeSocket State.init.network = some 128 := by decide
  refine ⟨{ files := plainFiles 126, calls := 127, network :=
    { State.init.network with
      g_sockets := Function.update State.init.network.g_sockets 128 (some 126) } }, ?_, ?_⟩
  · rw [State.run, List.foldlM_append, ← State.run, run_plain]
    simp [State.step, allocSocketFd, hfree, State.after]
  have hsocket : socketAt { State.init.network with
      g_sockets := Function.update State.init.network.g_sockets 128 (some 126) } 128
        = some 126 := by
    rw [socketAt_update _ (by decide)]
    rfl
  have hfile : getFile (plainFiles 126) 128
      = some { id := 125, name := "/app0/x", real_name := "x", opened := true } := by
    rw [show (128 : ℤ) = (125 : ℕ) + DESCRIPTOR_MIN from rfl, getFile_slot]
    simp [plainFiles]
  refine ⟨⟨_, hfile, rfl, rfl⟩, hsocket, ?_, fun h => ?_⟩
  · rw [kernelRead, if_neg (by decide), if_neg (by decide),
      if_pos (isSocket_iff.mpr ⟨126, hsocket⟩), withSocket_of_socketAt hsocket]
  · have := h.unique 128 (.file 125) (.socket 126) ⟨_, hfile, rfl, rfl⟩ hsocket
    cases this

end MagnusPS5.Kernel.FileSystem
