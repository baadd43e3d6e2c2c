/-
`KernelEqueuePrivate` (`eventQueue.cpp`), an event queue of the kernel.

Every call runs under the mutex of the queue from its start to its end, and a wait gives
the mutex up only between two calls of `GetTriggeredEvents`, so a queue goes through its
calls one after the other. The functions of a filter are those that the source registers:
the user events and the completion events of `eventQueue.cpp`, the end-of-pipe events of
`sync.cpp` and the events of `videoOut.cpp`. What deleting an event does outside the queue
is left out.
-/
import Mathlib.Algebra.Order.Ring.Int
import Mathlib.Data.List.Nodup

namespace MagnusPS5.Kernel.EventQueue

open List

/-! ## Events -/

abbrev EV_ADD : BitVec 16 := 0x01
abbrev EV_ONESHOT : BitVec 16 := 0x10
abbrev EV_CLEAR : BitVec 16 := 0x20

abbrev KERNEL_EVFILT_USER : ℤ := -11
abbrev KERNEL_EVFILT_GRAPHICS : ℤ := -14
abbrev KERNEL_EVFILT_VIDEO_OUT : ℤ := -13
abbrev KERNEL_EVFILT_HRTIMER : ℤ := -15

/-- `struct KernelEvent`. -/
structure KernelEvent where
  ident : BitVec 64 := 0
  filter : ℤ := 0
  flags : BitVec 16 := 0
  fflags : BitVec 32 := 0
  data : BitVec 64 := 0
  udata : BitVec 64 := 0
  deriving DecidableEq

/-- What `find_if` compares. -/
def KernelEvent.key (event : KernelEvent) : BitVec 64 × ℤ := (event.ident, event.filter)

/-- The values of `trigger_func`. -/
inductive TriggerFunc
  | userEvent | amprEvent | eopEvent | videoOutEvent
  deriving DecidableEq

/-- The values of `reset_func`. -/
inductive ResetFunc
  | userEvent | eopEvent | videoOutEvent
  deriving DecidableEq

/-- `struct KernelFilter`. -/
structure KernelFilter where
  trigger_func : Option TriggerFunc := none
  reset_func : Option ResetFunc := none
  deriving DecidableEq

/-- `struct KernelEqueueEvent`. -/
structure KernelEqueueEvent where
  triggered : Bool := false
  deadline_ns : ℕ := 0
  event : KernelEvent := {}
  filter : KernelFilter := {}
  pending_events : List KernelEvent := []
  deriving DecidableEq

variable {e : KernelEqueueEvent} {events : List KernelEqueueEvent}

namespace KernelEqueueEvent

def key (e : KernelEqueueEvent) : BitVec 64 × ℤ := e.event.key

/-! ## The functions of the filters -/

/-- `MakeVideoOutEventData`; `tsc` is what `KernelReadTsc` returns. -/
def makeVideoOutEventData (current_data trigger_data tsc : BitVec 64) : BitVec 64 :=
  let old_counter := (current_data >>> 12) &&& 0xf
  let counter := if old_counter ≠ 0xf then old_counter + 1 else old_counter
  (tsc &&& 0xfff) ||| (counter <<< 12) ||| ((trigger_data &&& 0x0000ffffffffffff) <<< 16)

/-- How a trigger that is queued meets an event: behind what is there to be returned, or in
its place. -/
def enqueue (triggered_event : KernelEvent) (e : KernelEqueueEvent) : KernelEqueueEvent :=
  if e.triggered then { e with pending_events := e.pending_events ++ [triggered_event] }
  else { e with event := triggered_event, triggered := true }

variable (trigger_data : BitVec 64)

def userEventTriggerFunc (e : KernelEqueueEvent) : KernelEqueueEvent :=
  { e with
    triggered := true
    event := { e.event with data := trigger_data, udata := trigger_data } }

def amprEventTriggerFunc (e : KernelEqueueEvent) : KernelEqueueEvent :=
  e.enqueue { e.event with data := trigger_data }

def eopEventTriggerFunc (e : KernelEqueueEvent) : KernelEqueueEvent :=
  e.enqueue { e.event with fflags := e.event.fflags + 1, data := trigger_data }

def triggerVideoOutEvent (trigger_data tsc : BitVec 64) (e : KernelEqueueEvent) :
    KernelEqueueEvent :=
  e.enqueue { e.event with
    fflags := if e.event.fflags < 0xf then e.event.fflags + 1 else e.event.fflags
    data := makeVideoOutEventData e.event.data trigger_data tsc }

/-- The body of `TriggerEvent`, on the event that is found. -/
def trigger (trigger_data tsc : BitVec 64) (e : KernelEqueueEvent) : KernelEqueueEvent :=
  match e.filter.trigger_func with
  | some .userEvent => e.userEventTriggerFunc trigger_data
  | some .amprEvent => e.amprEventTriggerFunc trigger_data
  | some .eopEvent => e.eopEventTriggerFunc trigger_data
  | some .videoOutEvent => e.triggerVideoOutEvent trigger_data tsc
  | none => { e with triggered := true }

/-- What `EopEventResetFunc` and `ResetVideoOutEvent` do, and the other two ways of resetting
where `EV_CLEAR` is set. -/
def clear (e : KernelEqueueEvent) : KernelEqueueEvent :=
  { e with triggered := false, event := { e.event with fflags := 0, data := 0 } }

def userEventResetFunc (e : KernelEqueueEvent) : KernelEqueueEvent :=
  if e.event.flags &&& EV_CLEAR ≠ 0 then e.clear else e

/-- What `GetTriggeredEvents` does with an event that it has returned. -/
def reset (e : KernelEqueueEvent) : KernelEqueueEvent :=
  match e.filter.reset_func with
  | some .userEvent => e.userEventResetFunc
  | some .eopEvent | some .videoOutEvent => e.clear
  | none => if e.event.flags &&& EV_CLEAR ≠ 0 then e.clear else e

/-- The next pending event takes the place of the one that was returned. -/
def popPending (e : KernelEqueueEvent) : KernelEqueueEvent :=
  match e.pending_events with
  | [] => e
  | next :: rest => { e with event := next, pending_events := rest, triggered := true }

/-- `(event.event.flags & EV_ONESHOT) != 0`. -/
def oneshot (e : KernelEqueueEvent) : Bool := e.event.flags &&& EV_ONESHOT ≠ 0

/-- The body of `TriggerExpiredTimers`. -/
def expire (now_ns : ℕ) (e : KernelEqueueEvent) : KernelEqueueEvent :=
  if e.triggered = false ∧ e.deadline_ns ≠ 0 ∧ e.deadline_ns ≤ now_ns then
    { e with triggered := true }
  else e

/-- What `AddEvent` does with an event that is registered already. -/
def update (e added : KernelEqueueEvent) : KernelEqueueEvent :=
  { e with
    deadline_ns := added.deadline_ns
    event := { e.event with udata := added.event.udata }
    pending_events :=
      e.pending_events.map fun pending => { pending with udata := added.event.udata } }

/-! ## Well-formed events -/

/-- The entries that wait behind an event have its name and its flags, and none waits behind
an event that is not triggered. -/
structure Valid (e : KernelEqueueEvent) : Prop where
  pending_key : ∀ p ∈ e.pending_events, p.key = e.key
  pending_flags : ∀ p ∈ e.pending_events, p.flags = e.event.flags
  idle : e.triggered = false → e.pending_events = []

theorem valid_of_nil (h : e.pending_events = []) : e.Valid :=
  ⟨fun p hp => by simp [h] at hp, fun p hp => by simp [h] at hp, fun _ => h⟩

theorem reset_cases (e : KernelEqueueEvent) : e.reset = e.clear ∨ e.reset = e := by
  unfold reset
  split
  · unfold userEventResetFunc
    split
    · exact .inl rfl
    · exact .inr rfl
  · exact .inl rfl
  · exact .inl rfl
  · split
    · exact .inl rfl
    · exact .inr rfl

@[simp] theorem reset_key (e : KernelEqueueEvent) : e.reset.key = e.key := by
  rcases e.reset_cases with h | h <;> rw [h]
  rfl

@[simp] theorem reset_flags (e : KernelEqueueEvent) : e.reset.event.flags = e.event.flags := by
  rcases e.reset_cases with h | h <;> rw [h]
  rfl

@[simp] theorem reset_pending (e : KernelEqueueEvent) :
    e.reset.pending_events = e.pending_events := by
  rcases e.reset_cases with h | h <;> rw [h]
  rfl

@[simp] theorem reset_filter (e : KernelEqueueEvent) : e.reset.filter = e.filter := by
  rcases e.reset_cases with h | h <;> rw [h]
  rfl

theorem Valid.popPending_reset (h : e.Valid) : e.reset.popPending.Valid := by
  unfold popPending
  split
  · next hnil => exact valid_of_nil hnil
  · next next rest hcons =>
    rw [reset_pending] at hcons
    have hkey := h.pending_key
    have hflags := h.pending_flags
    rw [hcons] at hkey hflags
    have hnext := hkey next mem_cons_self
    have hnextFlags := hflags next mem_cons_self
    refine ⟨fun p hp => ?_, fun p hp => ?_, nofun⟩
    · exact (hkey p (.tail _ hp)).trans hnext.symm
    · exact (hflags p (.tail _ hp)).trans hnextFlags.symm

theorem Valid.popPending_key (h : e.Valid) : e.reset.popPending.key = e.key := by
  unfold popPending
  split
  · exact e.reset_key
  · next next rest hcons =>
    rw [reset_pending] at hcons
    exact h.pending_key next (hcons ▸ .head _)

variable {triggered_event : KernelEvent}

theorem Valid.enqueue (h : e.Valid)
    (hkey : triggered_event.key = e.key) (hflags : triggered_event.flags = e.event.flags) :
    (e.enqueue triggered_event).Valid := by
  unfold KernelEqueueEvent.enqueue
  split
  · next htriggered =>
    refine ⟨fun p hp => ?_, fun p hp => ?_, fun hidle => absurd hidle (by simp [htriggered])⟩
    · rcases mem_append.mp hp with hp | hp
      · exact h.pending_key p hp
      · rw [mem_singleton.mp hp]
        exact hkey
    · rcases mem_append.mp hp with hp | hp
      · exact h.pending_flags p hp
      · rw [mem_singleton.mp hp]
        exact hflags
  · next htriggered =>
    have hnil := h.idle (by simpa using htriggered)
    exact valid_of_nil hnil

theorem enqueue_key (hkey : triggered_event.key = e.key) :
    (e.enqueue triggered_event).key = e.key := by
  unfold enqueue
  split
  · rfl
  · exact hkey

theorem Valid.marked (h : e.Valid) : Valid { e with triggered := true } :=
  ⟨h.pending_key, h.pending_flags, nofun⟩

theorem Valid.trigger (h : e.Valid) (trigger_data tsc : BitVec 64) :
    (e.trigger trigger_data tsc).Valid := by
  unfold KernelEqueueEvent.trigger
  split
  · exact ⟨h.pending_key, h.pending_flags, nofun⟩
  · exact h.enqueue rfl rfl
  · exact h.enqueue rfl rfl
  · exact h.enqueue rfl rfl
  · exact h.marked

@[simp] theorem trigger_key (e : KernelEqueueEvent) (trigger_data tsc : BitVec 64) :
    (e.trigger trigger_data tsc).key = e.key := by
  unfold trigger
  split
  · rfl
  · exact enqueue_key rfl
  · exact enqueue_key rfl
  · exact enqueue_key rfl
  · rfl

theorem Valid.expire (h : e.Valid) (now_ns : ℕ) : (e.expire now_ns).Valid := by
  unfold KernelEqueueEvent.expire
  split
  · exact h.marked
  · exact h

@[simp] theorem expire_key (e : KernelEqueueEvent) (now_ns : ℕ) :
    (e.expire now_ns).key = e.key := by
  unfold expire
  split <;> rfl

@[simp] theorem update_key (e added : KernelEqueueEvent) : (e.update added).key = e.key := rfl

theorem Valid.update (h : e.Valid) (added : KernelEqueueEvent) : (e.update added).Valid where
  pending_key := by
    intro p hp
    obtain ⟨q, hq, rfl⟩ := mem_map.mp hp
    exact h.pending_key q hq
  pending_flags := by
    intro p hp
    obtain ⟨q, hq, rfl⟩ := mem_map.mp hp
    exact h.pending_flags q hq
  idle := by
    intro hidle
    have hnil := h.idle hidle
    simp [KernelEqueueEvent.update, hnil]

end KernelEqueueEvent

/-! ## Draining -/

/-- What a loop over the events writes, and which events it keeps. -/
structure Drained where
  out : List KernelEvent
  kept : List KernelEqueueEvent
  deriving DecidableEq

/-- The loop of `GetTriggeredEvents` over one event; `room` is `num - ret`. -/
def KernelEqueueEvent.drain : ℕ → KernelEqueueEvent → Drained
  | 0, e => ⟨[], [e]⟩
  | room + 1, e =>
    if e.triggered = false then ⟨[], [e]⟩
    else if e.oneshot then ⟨[e.event], []⟩
    else
      let rest := drain room e.reset.popPending
      ⟨e.event :: rest.out, rest.kept⟩

/-- The loop of `GetTriggeredEvents` over the events. -/
def drainEvents : ℕ → List KernelEqueueEvent → Drained
  | _, [] => ⟨[], []⟩
  | 0, events => ⟨[], events⟩
  | room + 1, e :: events =>
    let first := e.drain (room + 1)
    let rest := drainEvents (room + 1 - first.out.length) events
    ⟨first.out ++ rest.out, first.kept ++ rest.kept⟩

namespace KernelEqueueEvent

variable {room : ℕ}

theorem drain_kept_key (room : ℕ) (h : e.Valid) :
    (e.drain room).kept = [] ∨
      ∃ e', (e.drain room).kept = [e'] ∧ e'.key = e.key ∧ e'.Valid := by
  induction room generalizing e with
  | zero => exact .inr ⟨e, rfl, rfl, h⟩
  | succ room ih =>
    unfold drain
    split_ifs
    · exact .inr ⟨e, rfl, rfl, h⟩
    · exact .inl rfl
    · rcases ih h.popPending_reset with hnil | ⟨e', hkept, hkey, hvalid⟩
      · exact .inl hnil
      · exact .inr ⟨e', hkept, hkey.trans h.popPending_key, hvalid⟩

/-- No more is written than there is room for. -/
theorem drain_length_le (room : ℕ) (e : KernelEqueueEvent) : (e.drain room).out.length ≤ room := by
  induction room generalizing e with
  | zero => exact Nat.le_refl 0
  | succ room ih =>
    unfold drain
    split_ifs
    · exact Nat.zero_le _
    · exact Nat.succ_le_succ (Nat.zero_le _)
    · exact Nat.succ_le_succ (ih _)

end KernelEqueueEvent

theorem drainEvents_kept (room : ℕ) (h : ∀ e ∈ events, e.Valid) :
    ((drainEvents room events).kept.map KernelEqueueEvent.key).Sublist
        (events.map KernelEqueueEvent.key) ∧
      ∀ e ∈ (drainEvents room events).kept, e.Valid := by
  induction events generalizing room with
  | nil => cases room <;> exact ⟨.refl _, h⟩
  | cons e events ih =>
    cases room with
    | zero => exact ⟨.refl _, h⟩
    | succ room =>
      obtain ⟨hsub, hvalid⟩ := ih (room + 1 - (e.drain (room + 1)).out.length)
        fun e' he' => h e' (.tail _ he')
      rw [drainEvents]
      rcases e.drain_kept_key (room + 1) (h e mem_cons_self) with
        hnil | ⟨e', hkept, hkey, he'⟩
      · rw [hnil]
        exact ⟨hsub.cons _, hvalid⟩
      · rw [hkept]
        refine ⟨?_, fun x hx => ?_⟩
        · rw [singleton_append, map_cons, map_cons, hkey]
          exact hsub.cons_cons _
        · rcases mem_cons.mp hx with rfl | hx
          · exact he'
          · exact hvalid x hx

/-! ## The queue -/

/-- What the calls return where they do not succeed. -/
inductive Error
  | ebadf | enoent | efault | einval
  deriving DecidableEq

/-- `class KernelEqueuePrivate`. No two events have one name. -/
structure KernelEqueuePrivate where
  m_events : List KernelEqueueEvent
  m_closed : Bool
  nodup : (m_events.map KernelEqueueEvent.key).Nodup
  valid : ∀ e ∈ m_events, e.Valid

/-- What is done with the first event of a name. -/
def modifyKey (key : BitVec 64 × ℤ) (f : KernelEqueueEvent → KernelEqueueEvent) :
    List KernelEqueueEvent → List KernelEqueueEvent
  | [] => []
  | e :: events => if e.key = key then f e :: events else e :: modifyKey key f events

section Modify

variable {key : BitVec 64 × ℤ} {f : KernelEqueueEvent → KernelEqueueEvent}

theorem map_key_modifyKey (hf : ∀ e, (f e).key = e.key) :
    (modifyKey key f events).map KernelEqueueEvent.key = events.map KernelEqueueEvent.key := by
  induction events with
  | nil => rfl
  | cons e events ih =>
    unfold modifyKey
    split_ifs
    · rw [map_cons, map_cons, hf]
    · rw [map_cons, map_cons, ih]

theorem modifyKey_valid (hf : ∀ e, e.Valid → (f e).Valid) (h : ∀ e ∈ events, e.Valid) :
    ∀ e ∈ modifyKey key f events, e.Valid := by
  induction events with
  | nil => exact h
  | cons x events ih =>
    have hx := h x mem_cons_self
    have hrest := fun e he => h e (.tail _ he)
    intro e he
    unfold modifyKey at he
    split_ifs at he
    · rcases mem_cons.mp he with rfl | he
      · exact hf x hx
      · exact hrest e he
    · rcases mem_cons.mp he with rfl | he
      · exact hx
      · exact ih hrest e he

end Modify

namespace KernelEqueuePrivate

/-- The constructor. -/
def new : KernelEqueuePrivate where
  m_events := []
  m_closed := false
  nodup := List.nodup_nil
  valid := fun _ he => nomatch he

variable (q : KernelEqueuePrivate)

variable (key : BitVec 64 × ℤ)

/-- Whether `find_if` finds an event. -/
def has : Prop :=
  key ∈ q.m_events.map KernelEqueueEvent.key

instance (q : KernelEqueuePrivate) (key : BitVec 64 × ℤ) : Decidable (q.has key) :=
  inferInstanceAs (Decidable (key ∈ q.m_events.map KernelEqueueEvent.key))

/-- The queue with one event changed. -/
def modify (f : KernelEqueueEvent → KernelEqueueEvent) (hkey : ∀ e, (f e).key = e.key)
    (hvalid : ∀ e, e.Valid → (f e).Valid) : KernelEqueuePrivate where
  m_events := modifyKey key f q.m_events
  m_closed := q.m_closed
  nodup := by
    rw [map_key_modifyKey hkey]
    exact q.nodup
  valid := modifyKey_valid hvalid q.valid

def pushBack (event : KernelEqueueEvent) (hnew : ¬ q.has event.key)
    (hvalid : event.Valid) : KernelEqueuePrivate where
  m_events := q.m_events ++ [event]
  m_closed := q.m_closed
  nodup := by
    rw [List.map_append, List.map_singleton]
    exact List.nodup_append.mpr ⟨q.nodup, List.nodup_singleton _, fun x hx y hy hxy =>
      hnew (List.mem_singleton.mp hy ▸ hxy ▸ hx)⟩
  valid := by
    intro e he
    rcases List.mem_append.mp he with he | he
    · exact q.valid e he
    · rw [List.mem_singleton.mp he]
      exact hvalid

/-- `AddEvent`. No caller gives an event with entries behind it. -/
def addEvent (event : KernelEqueueEvent)
    (hevent : event.pending_events = []) : Except Error KernelEqueuePrivate :=
  if q.m_closed then .error .ebadf
  else if h : q.has event.key then
    .ok (q.modify event.key (fun e => e.update event) (fun e => e.update_key event)
      fun _ he => he.update event)
  else .ok (q.pushBack event h (KernelEqueueEvent.valid_of_nil hevent))

def triggerEvent (ident : BitVec 64) (filter : ℤ)
    (trigger_data tsc : BitVec 64) : Except Error KernelEqueuePrivate :=
  if q.m_closed then .error .ebadf
  else if q.has (ident, filter) then
    .ok (q.modify (ident, filter) (fun e => e.trigger trigger_data tsc)
      (fun e => e.trigger_key trigger_data tsc) fun _ he => he.trigger trigger_data tsc)
  else .error .enoent

def erase : KernelEqueuePrivate where
  m_events := q.m_events.eraseP fun e => e.key = key
  m_closed := q.m_closed
  nodup := (List.eraseP_sublist.map _).nodup q.nodup
  valid := fun e he => q.valid e (List.eraseP_sublist.subset he)

def deleteEvent (ident : BitVec 64) (filter : ℤ) : Except Error KernelEqueuePrivate :=
  if q.m_closed then .error .ebadf
  else if q.has (ident, filter) then .ok (q.erase (ident, filter))
  else .error .enoent

def close : KernelEqueuePrivate :=
  if q.m_closed then q
  else
    { m_events := []
      m_closed := true
      nodup := List.nodup_nil
      valid := fun _ he => nomatch he }

def triggerExpiredTimers (now_ns : ℕ) : KernelEqueuePrivate where
  m_events := q.m_events.map fun e => e.expire now_ns
  m_closed := q.m_closed
  nodup := by
    rw [List.map_map]
    have hkeys : KernelEqueueEvent.key ∘ (fun e => e.expire now_ns) = KernelEqueueEvent.key := by
      funext e
      exact e.expire_key now_ns
    rw [hkeys]
    exact q.nodup
  valid := by
    intro e he
    obtain ⟨x, hx, rfl⟩ := List.mem_map.mp he
    exact (q.valid x hx).expire now_ns

/-- The queue that a loop over the events leaves. -/
def drained (room : ℕ) : KernelEqueuePrivate where
  m_events := (drainEvents room q.m_events).kept
  m_closed := q.m_closed
  nodup := (drainEvents_kept room q.valid).1.nodup q.nodup
  valid := (drainEvents_kept room q.valid).2

/-- `GetTriggeredEvents`, with what it writes to `ev`; nothing is `EXIT`. -/
def getTriggeredEvents (num : ℤ) (now_ns : ℕ) :
    Option (Except Error (List KernelEvent × KernelEqueuePrivate)) :=
  if num < 1 then none
  else if q.m_closed then some (.error .ebadf)
  else
    let due := q.triggerExpiredTimers now_ns
    some (.ok ((drainEvents num.toNat due.m_events).out, due.drained num.toNat))

end KernelEqueuePrivate

/-! ## Registering events -/

/-- The event of `KernelAddUserEvent`. -/
def userEvent (id : BitVec 32) : KernelEqueueEvent where
  event := { ident := id.signExtend 64, filter := KERNEL_EVFILT_USER, flags := EV_ADD }
  filter := { trigger_func := some .userEvent, reset_func := some .userEvent }

/-- The event of `KernelAddUserEventEdge`. -/
def userEventEdge (id : BitVec 32) : KernelEqueueEvent where
  event := { ident := id.signExtend 64, filter := KERNEL_EVFILT_USER, flags := EV_ADD ||| EV_CLEAR }
  filter := { trigger_func := some .userEvent, reset_func := some .userEvent }

/-- The event of `KernelAddAmprEvent`. -/
def amprEvent (id : BitVec 32) (udata : BitVec 64) : KernelEqueueEvent where
  event := {
    ident := id.signExtend 64
    filter := KERNEL_EVFILT_USER
    flags := EV_ADD ||| EV_CLEAR
    udata := udata }
  filter := { trigger_func := some .amprEvent, reset_func := some .userEvent }

/-- `struct KernelTimespec`. -/
structure KernelTimespec where
  tv_sec : ℤ
  tv_nsec : ℤ
  deriving DecidableEq

/-- `UINT64_MAX`. -/
abbrev maxNs : ℕ := 18446744073709551615

/-- The event of `KernelAddHRTimerEvent`, which refuses a time that is none or out of range. -/
def hrTimerEvent (id : BitVec 32) (ts : Option KernelTimespec) (udata : BitVec 64) (now_ns : ℕ) :
    Except Error KernelEqueueEvent :=
  match ts with
  | none => .error .efault
  | some ts =>
    if ts.tv_sec < 0 ∨ ts.tv_nsec < 0 ∨ ts.tv_nsec ≥ 1000000000 ∨
        ts.tv_sec.toNat > (maxNs - ts.tv_nsec.toNat) / 1000000000 then .error .einval
    else
      let delay_ns := ts.tv_sec.toNat * 1000000000 + ts.tv_nsec.toNat
      .ok {
        deadline_ns := if delay_ns ≤ maxNs - now_ns then now_ns + delay_ns else maxNs
        event := {
          ident := id.signExtend 64
          filter := KERNEL_EVFILT_HRTIMER
          flags := EV_ADD ||| EV_ONESHOT
          udata := udata } }

/-- The event of `AddEqEvent` (`sync.cpp`). -/
def eopEvent (id : BitVec 32) (udata : BitVec 64) : KernelEqueueEvent where
  event := {
    ident := id.signExtend 64
    filter := KERNEL_EVFILT_GRAPHICS
    data := id.signExtend 64
    udata := udata }
  filter := { trigger_func := some .eopEvent, reset_func := some .eopEvent }

inductive VideoOutEventKind
  | flip | vblank | preVblankStart | outputMode
  deriving DecidableEq

/-- `VideoOutEventId`. -/
def VideoOutEventKind.id : VideoOutEventKind → BitVec 64
  | .flip => 0
  | .vblank => 1
  | .preVblankStart => 2
  | .outputMode => 8

/-- The event of `RegisterVideoOutEvent`; the one for the output mode is triggered from the
start. -/
def videoOutEvent (kind : VideoOutEventKind) (udata output_mode tsc : BitVec 64) :
    KernelEqueueEvent where
  triggered := decide (kind = .outputMode)
  event := {
    ident := kind.id
    filter := KERNEL_EVFILT_VIDEO_OUT
    fflags := if kind = .outputMode then 1 else 0
    data :=
      if kind = .outputMode then KernelEqueueEvent.makeVideoOutEventData 0 output_mode tsc else 0
    udata := udata }
  filter := { trigger_func := some .videoOutEvent, reset_func := some .videoOutEvent }

variable {event : KernelEqueueEvent}

theorem hrTimerEvent_pending {id : BitVec 32} {ts : Option KernelTimespec} {udata : BitVec 64}
    {now_ns : ℕ} (h : hrTimerEvent id ts udata now_ns = .ok event) : event.pending_events = [] := by
  unfold hrTimerEvent at h
  split at h
  · nomatch h
  · split_ifs at h
    simp only [Except.ok.injEq] at h
    rw [← h]

/-! ## Calls -/

/-- A call that reaches the queue. `waitEqueue` is one round of the loop of `WaitForEvents`, or
`GetTriggeredEvents` where the time to wait is 0. -/
inductive Call
  | addUserEvent (id : BitVec 32)
  | addUserEventEdge (id : BitVec 32)
  | addAmprEvent (id : BitVec 32) (udata : BitVec 64)
  | addHRTimerEvent (id : BitVec 32) (ts : Option KernelTimespec) (udata : BitVec 64) (now_ns : ℕ)
  | addEqEvent (id : BitVec 32) (udata : BitVec 64)
  | addVideoOutEvent (kind : VideoOutEventKind) (udata output_mode tsc : BitVec 64)
  | triggerEvent (ident : BitVec 64) (filter : ℤ) (trigger_data tsc : BitVec 64)
  | deleteEvent (ident : BitVec 64) (filter : ℤ)
  | waitEqueue (num : ℤ) (now_ns : ℕ)
  | close

/-- The event that a call adds. -/
def Call.added : Call → Option KernelEqueueEvent
  | .addUserEvent id => some (userEvent id)
  | .addUserEventEdge id => some (userEventEdge id)
  | .addAmprEvent id udata => some (amprEvent id udata)
  | .addHRTimerEvent id ts udata now_ns => (hrTimerEvent id ts udata now_ns).toOption
  | .addEqEvent id udata => some (eopEvent id udata)
  | .addVideoOutEvent kind udata output_mode tsc => some (videoOutEvent kind udata output_mode tsc)
  | _ => none

theorem Call.added_pending {call : Call} (h : call.added = some event) :
    event.pending_events = [] := by
  cases call with
  | addHRTimerEvent id ts udata now_ns =>
    change (hrTimerEvent id ts udata now_ns).toOption = some event at h
    cases hevent : hrTimerEvent id ts udata now_ns with
    | error _ =>
      rw [hevent] at h
      exact absurd h (by simp [Except.toOption])
    | ok e =>
      rw [hevent] at h
      obtain rfl : e = event := by simpa [Except.toOption] using h
      exact hrTimerEvent_pending hevent
  | addUserEvent | addUserEventEdge | addAmprEvent | addEqEvent | addVideoOutEvent =>
    simp only [Call.added, Option.some.injEq] at h
    rw [← h]
    rfl
  | triggerEvent | deleteEvent | waitEqueue | close => exact absurd h (by simp [Call.added])

namespace KernelEqueuePrivate

/-- A drain, which an error leaves without effect. -/
def wait (q : KernelEqueuePrivate) (num : ℤ) (now_ns : ℕ) :
    KernelEqueuePrivate × List KernelEvent :=
  match q.getTriggeredEvents num now_ns with
  | some (.ok (out, q')) => (q', out)
  | _ => (q, [])

/-- The queue after a call, which is the queue before it where the call fails, and the entries
that the call has returned. A wait for less than one entry is refused. -/
def call (q : KernelEqueuePrivate) (c : Call) : KernelEqueuePrivate × List KernelEvent :=
  match h : c.added with
  | some event => ((q.addEvent event (Call.added_pending h)).toOption.getD q, [])
  | none =>
    match c with
    | .triggerEvent ident filter trigger_data tsc =>
      ((q.triggerEvent ident filter trigger_data tsc).toOption.getD q, [])
    | .deleteEvent ident filter => ((q.deleteEvent ident filter).toOption.getD q, [])
    | .waitEqueue num now_ns => q.wait num now_ns
    | .close => (q.close, [])
    | _ => (q, [])

/-- The queue after a run of calls. -/
def run (q : KernelEqueuePrivate) : List Call → KernelEqueuePrivate
  | [] => q
  | c :: calls => (q.call c).1.run calls

/-- What the calls of a run return, in the order of the calls. -/
def delivered (q : KernelEqueuePrivate) : List Call → List KernelEvent
  | [] => []
  | c :: calls => (q.call c).2 ++ (q.call c).1.delivered calls

end KernelEqueuePrivate

end MagnusPS5.Kernel.EventQueue
