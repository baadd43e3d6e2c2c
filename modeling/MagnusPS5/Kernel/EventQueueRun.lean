/-
Completion events over a whole run of calls.

A completion event holds the payloads that were triggered and not returned yet: its own one
and those pending behind it. Each call conserves them: what was held and what the call
triggers is what the call returns and what is held afterwards, in this order.
-/
import MagnusPS5.Kernel.EventQueueDrain

namespace MagnusPS5.Kernel.EventQueue

open KernelEqueueEvent KernelEqueuePrivate Call
open KernelEvent (data)
open List hiding filter

/-! ## Payloads -/

/-- What `find_if` looks for when a completion event is triggered. -/
def amprKey (id : BitVec 32) : BitVec 64 × ℤ := (id.signExtend 64, KERNEL_EVFILT_USER)

variable (key : BitVec 64 × ℤ)

/-- The payloads of the entries with a name. -/
def payloads (out : List KernelEvent) : List (BitVec 64) :=
  (out.filter fun x => x.key = key).map data

/-- The payloads that a queue holds for a name. -/
def KernelEqueuePrivate.waiting (q : KernelEqueuePrivate) (key : BitVec 64 × ℤ) :
    List (BitVec 64) :=
  payloads key (q.m_events.flatMap KernelEqueueEvent.entries)

/-- The payloads that calls trigger for a name. -/
def triggered (calls : List Call) : List (BitVec 64) :=
  calls.flatMap fun
    | .triggerEvent ident filter trigger_data _ =>
      if (ident, filter) = key then [trigger_data] else []
    | _ => []

/-- The call does not delete the event, and does not close the queue. -/
def Call.Keeps : Call → Prop
  | .deleteEvent ident filter => (ident, filter) ≠ key
  | .close => False
  | _ => True

/-! ## The event -/

variable {key : BitVec 64 × ℤ} {e : KernelEqueueEvent} {room now_ns : ℕ}
  {events : List KernelEqueueEvent} {c : Call} {num : ℤ}

namespace KernelEqueueEvent

/-- An event that `KernelAddAmprEvent` has registered. -/
structure IsAmpr (key : BitVec 64 × ℤ) (e : KernelEqueueEvent) : Prop where
  key_eq : e.key = key
  trigger_func : e.filter.trigger_func = some .amprEvent
  reset_func : e.filter.reset_func = some .userEvent
  flags : e.event.flags = EV_ADD ||| EV_CLEAR
  deadline : e.deadline_ns = 0

theorem IsAmpr.oneshot (h : e.IsAmpr key) : e.oneshot = false := by
  rw [KernelEqueueEvent.oneshot, h.flags]
  decide

theorem IsAmpr.level (h : e.IsAmpr key) : e.level = false := by
  rw [KernelEqueueEvent.level, h.reset_func, h.flags]
  simp

theorem reset_deadline (e : KernelEqueueEvent) : e.reset.deadline_ns = e.deadline_ns := by
  rcases e.reset_cases with h | h <;> rw [h]
  rfl

theorem IsAmpr.popPending_reset (hvalid : e.Valid) (h : e.IsAmpr key) :
    e.reset.popPending.IsAmpr key := by
  refine ⟨hvalid.popPending_key.trans h.key_eq, ?_, ?_, ?_, ?_⟩ <;>
    cases hpending : e.pending_events with
    | nil =>
      rw [popPending_nil hpending]
      first
        | exact (congrArg _ e.reset_filter).trans h.trigger_func
        | exact (congrArg _ e.reset_filter).trans h.reset_func
        | exact e.reset_flags.trans h.flags
        | exact e.reset_deadline.trans h.deadline
    | cons next rest =>
      rw [popPending_cons hpending]
      first
        | exact (congrArg _ e.reset_filter).trans h.trigger_func
        | exact (congrArg _ e.reset_filter).trans h.reset_func
        | exact (hvalid.pending_flags next (hpending ▸ .head _)).trans h.flags
        | exact e.reset_deadline.trans h.deadline

theorem IsAmpr.drain (room : ℕ) (hvalid : e.Valid) (h : e.IsAmpr key) :
    ∃ e', (e.drain room).kept = [e'] ∧ e'.IsAmpr key ∧
      (e.drain room).out ++ e'.entries = e.entries := by
  induction room generalizing e with
  | zero => exact ⟨e, rfl, h, rfl⟩
  | succ room ih =>
    cases htriggered : e.triggered with
    | false =>
      rw [drain_of_idle htriggered]
      exact ⟨e, rfl, h, rfl⟩
    | true =>
      obtain ⟨e', hkept, hampr, hentries⟩ :=
        ih hvalid.popPending_reset (h.popPending_reset hvalid)
      rw [drain_of_triggered htriggered h.oneshot, entries_of_triggered htriggered h.oneshot]
      refine ⟨e', hkept, hampr, ?_⟩
      rw [cons_append, hentries]
      refine congrArg (e.event :: ·) ?_
      cases hpending : e.pending_events with
      | nil =>
        rw [popPending_nil hpending]
        exact entries_of_idle ((reset_triggered h.oneshot htriggered).trans h.level)
      | cons next rest =>
        rw [entries_of_triggered (by rw [popPending_cons hpending])
          (hvalid.popPending_oneshot.trans h.oneshot), popPending_cons hpending]

theorem drain_idle (h : (e.drain room).out.length < room) :
    ∀ e' ∈ (e.drain room).kept, e'.triggered = false := by
  induction room generalizing e with
  | zero => exact absurd h (Nat.not_lt_zero _)
  | succ room ih =>
    intro e' he'
    unfold drain at h he'
    split_ifs at h he' with htriggered honeshot
    · rw [mem_singleton.mp he']
      exact htriggered
    · cases he'
    · exact ih (Nat.lt_of_succ_lt_succ h) e' he'

theorem enqueue_entries (hvalid : e.Valid) (honeshot : e.oneshot = false) {x : KernelEvent}
    (hflags : x.flags = e.event.flags) : (e.enqueue x).entries = e.entries ++ [x] := by
  cases htriggered : e.triggered with
  | true =>
    have hafter : e.enqueue x = { e with pending_events := e.pending_events ++ [x] } := by
      rw [enqueue, htriggered, if_pos rfl]
    rw [hafter, entries_of_triggered htriggered honeshot]
    exact entries_of_triggered htriggered honeshot
  | false =>
    have hafter : e.enqueue x = { e with event := x, triggered := true } := by
      rw [enqueue, htriggered, if_neg (by simp)]
    have honeshot' : (e.enqueue x).oneshot = false := by
      rw [hafter, oneshot, hflags]
      exact honeshot
    rw [entries_of_idle htriggered, entries_of_triggered (by rw [hafter]) honeshot', hafter,
      hvalid.idle htriggered]
    rfl

theorem IsAmpr.trigger (hvalid : e.Valid) (h : e.IsAmpr key) (trigger_data tsc : BitVec 64) :
    (e.trigger trigger_data tsc).IsAmpr key ∧
      (e.trigger trigger_data tsc).entries.map data =
        e.entries.map data ++ [trigger_data] := by
  have htrigger : e.trigger trigger_data tsc = e.enqueue { e.event with data := trigger_data } := by
    rw [KernelEqueueEvent.trigger, h.trigger_func]
    rfl
  rw [htrigger]
  constructor
  · unfold enqueue
    split <;> exact ⟨h.key_eq, h.trigger_func, h.reset_func, h.flags, h.deadline⟩
  · rw [enqueue_entries hvalid h.oneshot (by rfl), map_append]
    rfl

theorem IsAmpr.update (h : e.IsAmpr key) {added : KernelEqueueEvent}
    (hadded : added.deadline_ns = 0) :
    (e.update added).IsAmpr key ∧
      (e.update added).entries.map data = e.entries.map data := by
  have hampr : (e.update added).IsAmpr key :=
    ⟨h.key_eq, h.trigger_func, h.reset_func, h.flags, hadded⟩
  refine ⟨hampr, ?_⟩
  have hsame : (e.update added).triggered = e.triggered := rfl
  cases htriggered : e.triggered with
  | false => rw [entries_of_idle htriggered, entries_of_idle (hsame.trans htriggered)]
  | true =>
    rw [entries_of_triggered htriggered h.oneshot,
      entries_of_triggered (hsame.trans htriggered) hampr.oneshot, map_cons, map_cons,
      KernelEqueueEvent.update, map_map]
    rfl

theorem IsAmpr.expire (h : e.IsAmpr key) (now_ns : ℕ) : e.expire now_ns = e := by
  rw [KernelEqueueEvent.expire, if_neg (fun hdue => hdue.2.1 h.deadline)]

end KernelEqueueEvent

/-! ## The events of a queue -/

section Modify

variable {f : KernelEqueueEvent → KernelEqueueEvent}

theorem mem_modifyKey_of_eq (hnodup : (events.map KernelEqueueEvent.key).Nodup) (he : e ∈ events)
    (hkey : e.key = key) : f e ∈ modifyKey key f events := by
  induction events with
  | nil => cases he
  | cons x events ih =>
    rw [map_cons, nodup_cons] at hnodup
    unfold modifyKey
    rcases mem_cons.mp he with rfl | he
    · rw [if_pos hkey]
      exact .head _
    · have hne : x.key ≠ key := fun hx =>
        hnodup.1 (hx.trans hkey.symm ▸ mem_map_of_mem he)
      rw [if_neg hne]
      exact .tail _ (ih hnodup.2 he)

theorem mem_modifyKey_of_ne (he : e ∈ events) (hkey : e.key ≠ key) :
    e ∈ modifyKey key f events := by
  induction events with
  | nil => cases he
  | cons x events ih =>
    unfold modifyKey
    rcases mem_cons.mp he with rfl | he
    · rw [if_neg hkey]
      exact .head _
    · split_ifs
      · exact .tail _ he
      · exact .tail _ (ih he)

end Modify

section Drain

theorem drainEvents_idle (h : (drainEvents room events).out.length < room) :
    ∀ e ∈ (drainEvents room events).kept, e.triggered = false := by
  induction events generalizing room with
  | nil =>
    intro e he
    cases room <;> nomatch he
  | cons x events ih =>
    rw [drainEvents_cons, length_append] at h
    rw [drainEvents_cons]
    intro e he
    rcases mem_append.mp he with he | he
    · exact drain_idle (by omega) e he
    · exact ih (by omega) e he

theorem drainEvents_ampr (room : ℕ) (hnodup : (events.map KernelEqueueEvent.key).Nodup)
    (hvalid : ∀ x ∈ events, x.Valid) (he : e ∈ events) (h : e.IsAmpr key) :
    ∃ e' ∈ (drainEvents room events).kept, e'.IsAmpr key ∧
      entriesOf e (drainEvents room events).out ++ e'.entries = e.entries := by
  induction events generalizing room with
  | nil => cases he
  | cons x events ih =>
    rw [map_cons, nodup_cons] at hnodup
    have hx := hvalid x mem_cons_self
    have hrest := fun y hy => hvalid y (mem_cons_of_mem x hy)
    rw [drainEvents_cons, entriesOf, filter_append]
    rcases mem_cons.mp he with rfl | he
    · obtain ⟨e', hkept, hampr, hentries⟩ := h.drain room hx
      refine ⟨e', mem_append_left _ (hkept ▸ mem_singleton_self _), hampr, ?_⟩
      have hfirst : (e.drain room).out.filter (fun y => y.key = e.key) = (e.drain room).out :=
        filter_eq_self.mpr fun y hy => by simpa using hx.drain_key y hy
      have hlater : (drainEvents (room - (e.drain room).out.length) events).out.filter
          (fun y => y.key = e.key) = [] := by
        rw [filter_eq_nil_iff]
        intro y hy
        obtain ⟨z, hz, hkey⟩ := drainEvents_known hrest y hy
        rw [decide_eq_true_eq, hkey]
        exact fun heq => hnodup.1 (heq ▸ mem_map_of_mem hz)
      rw [hfirst, hlater, append_nil, hentries]
    · obtain ⟨e', hkept, hampr, hentries⟩ :=
        ih (room - (x.drain room).out.length) hnodup.2 hrest he
      refine ⟨e', mem_append_right _ hkept, hampr, ?_⟩
      have hfirst : (x.drain room).out.filter (fun y => y.key = e.key) = [] := by
        rw [filter_eq_nil_iff]
        intro y hy
        rw [decide_eq_true_eq, hx.drain_key y hy]
        exact fun heq => hnodup.1 (heq ▸ mem_map_of_mem he)
      rw [hfirst, nil_append]
      exact hentries

end Drain

/-! ## One call -/

variable {event : KernelEqueueEvent}

theorem Call.added_deadline (h : c.added = some event)
    (hfilter : event.event.filter = KERNEL_EVFILT_USER) : event.deadline_ns = 0 := by
  cases c with
  | addHRTimerEvent id ts udata now_ns =>
    change (hrTimerEvent id ts udata now_ns).toOption = some event at h
    unfold hrTimerEvent at h
    split at h
    · exact absurd h (by simp [Except.toOption])
    · split_ifs at h
      · exact absurd h (by simp [Except.toOption])
      · simp only [Except.toOption, Option.some.injEq] at h
        rw [← h] at hfilter
        have hne : KERNEL_EVFILT_HRTIMER ≠ KERNEL_EVFILT_USER := by decide
        exact absurd hfilter hne
  | addUserEvent | addUserEventEdge | addAmprEvent | addEqEvent | addVideoOutEvent =>
    simp only [added, Option.some.injEq] at h
    rw [← h]
    rfl
  | triggerEvent | deleteEvent | waitEqueue | close => exact absurd h (by simp [added])

namespace KernelEqueuePrivate

variable {q : KernelEqueuePrivate}

/-- The queue is open and holds a completion event. -/
structure Holds (q : KernelEqueuePrivate) (key : BitVec 64 × ℤ) (e : KernelEqueueEvent) :
    Prop where
  opened : q.m_closed = false
  mem : e ∈ q.m_events
  ampr : e.IsAmpr key

theorem Holds.has (h : q.Holds key e) : q.has key := by
  have hmem : e.key ∈ q.m_events.map KernelEqueueEvent.key := mem_map_of_mem h.mem
  rw [h.ampr.key_eq] at hmem
  exact hmem

theorem Holds.waiting_eq (h : q.Holds key e) : q.waiting key = e.entries.map data := by
  rw [waiting, payloads]
  have hentries := entriesOf_flatMap q.nodup q.valid h.mem
  rw [entriesOf, h.ampr.key_eq] at hentries
  rw [hentries]

theorem call_added (h : c.added = some event) :
    q.call c = ((q.addEvent event (added_pending h)).toOption.getD q, []) := by
  unfold call
  split
  · next heq =>
    cases heq.symm.trans h
    rfl
  · next heq => nomatch (heq.symm.trans h)

theorem call_waitEqueue (hnum : ¬ num < 1) (hopen : q.m_closed = false) :
    q.call (.waitEqueue num now_ns) =
      ((q.triggerExpiredTimers now_ns).drained num.toNat,
        (drainEvents num.toNat (q.triggerExpiredTimers now_ns).m_events).out) := by
  change q.wait num now_ns = _
  rw [wait, getTriggeredEvents, if_neg hnum, hopen, if_neg (by simp)]

section

variable (h : q.Holds key e)

include h

theorem Holds.added (hkey : key.2 = KERNEL_EVFILT_USER) (hadded : c.added = some event) :
    ∃ e', ((q.addEvent event (Call.added_pending hadded)).toOption.getD q).Holds key e' ∧
      e'.entries.map data = e.entries.map data := by
  unfold addEvent
  rw [h.opened, if_neg (by simp)]
  split_ifs with hhas
  · by_cases heq : event.key = key
    · have hdeadline := Call.added_deadline hadded ((congrArg Prod.snd heq).trans hkey)
      obtain ⟨hampr, hdata⟩ := h.ampr.update hdeadline
      refine ⟨e.update event, ⟨h.opened, ?_, hampr⟩, hdata⟩
      exact mem_modifyKey_of_eq (f := fun e => e.update event) q.nodup h.mem
        (h.ampr.key_eq.trans heq.symm)
    · have hother := h.ampr.key_eq.trans_ne (Ne.symm heq)
      exact ⟨e, ⟨h.opened, mem_modifyKey_of_ne h.mem hother, h.ampr⟩, rfl⟩
  · exact ⟨e, ⟨h.opened, mem_append_left _ h.mem, h.ampr⟩, rfl⟩

theorem Holds.trigger (ident : BitVec 64) (filter : ℤ) (trigger_data tsc : BitVec 64) :
    ∃ e', ((q.triggerEvent ident filter trigger_data tsc).toOption.getD q).Holds key e' ∧
      e'.entries.map data = e.entries.map data ++
        triggered key [.triggerEvent ident filter trigger_data tsc] := by
  have htriggered : triggered key [.triggerEvent ident filter trigger_data tsc] =
      if (ident, filter) = key then [trigger_data] else [] := append_nil _
  rw [htriggered]
  unfold triggerEvent
  rw [h.opened, if_neg (by simp)]
  by_cases heq : (ident, filter) = key
  · rw [if_pos heq, heq, if_pos h.has]
    obtain ⟨hampr, hdata⟩ := h.ampr.trigger (q.valid e h.mem) trigger_data tsc
    refine ⟨e.trigger trigger_data tsc, ⟨h.opened, ?_, hampr⟩, hdata⟩
    exact mem_modifyKey_of_eq (f := fun e => e.trigger trigger_data tsc) q.nodup h.mem h.ampr.key_eq
  · rw [if_neg heq, append_nil]
    split_ifs
    · have hother := h.ampr.key_eq.trans_ne (Ne.symm heq)
      exact ⟨e, ⟨h.opened, mem_modifyKey_of_ne h.mem hother, h.ampr⟩, rfl⟩
    · exact ⟨e, h, rfl⟩

theorem Holds.delete {ident : BitVec 64} {filter : ℤ} (hkeep : (ident, filter) ≠ key) :
    ((q.deleteEvent ident filter).toOption.getD q).Holds key e := by
  unfold deleteEvent
  rw [h.opened, if_neg (by simp)]
  split_ifs
  · refine ⟨h.opened, ?_, h.ampr⟩
    refine (mem_eraseP_of_neg ?_).mpr h.mem
    rw [decide_eq_true_eq, h.ampr.key_eq]
    exact Ne.symm hkeep
  · exact h

theorem Holds.expired (now_ns : ℕ) : (q.triggerExpiredTimers now_ns).Holds key e :=
  ⟨h.opened, mem_map.mpr ⟨e, h.mem, h.ampr.expire now_ns⟩, h.ampr⟩

theorem Holds.wait (num : ℤ) (now_ns : ℕ) : ∃ e', (q.call (.waitEqueue num now_ns)).1.Holds key e' ∧
      e.entries.map data =
        payloads key (q.call (.waitEqueue num now_ns)).2 ++ e'.entries.map data := by
  by_cases hnum : num < 1
  · have hcall : q.call (.waitEqueue num now_ns) = (q, []) := by
      change q.wait num now_ns = _
      rw [KernelEqueuePrivate.wait, getTriggeredEvents, if_pos hnum]
    rw [hcall]
    exact ⟨e, h, rfl⟩
  · rw [call_waitEqueue hnum h.opened]
    have hdue := h.expired now_ns
    obtain ⟨e', hkept, hampr, hentries⟩ := drainEvents_ampr num.toNat
      (q.triggerExpiredTimers now_ns).nodup (q.triggerExpiredTimers now_ns).valid hdue.mem h.ampr
    refine ⟨e', ⟨h.opened, hkept, hampr⟩, ?_⟩
    rw [← hentries, map_append, entriesOf, h.ampr.key_eq]
    rfl

end

theorem waiting_of_room (hroom : (q.call (.waitEqueue num now_ns)).2.length < num)
    (hopen : q.m_closed = false) : (q.call (.waitEqueue num now_ns)).1.waiting key = [] := by
  have hnum : ¬ num < 1 := by omega
  rw [call_waitEqueue hnum hopen] at hroom ⊢
  have hlength : (drainEvents num.toNat (q.triggerExpiredTimers now_ns).m_events).out.length <
      num.toNat := by
    dsimp only at hroom
    omega
  have hidle := drainEvents_idle hlength
  have hnone : ((q.triggerExpiredTimers now_ns).drained num.toNat).m_events.flatMap
      entries = [] := by
    rw [flatMap_eq_nil_iff]
    intro e he
    exact entries_of_idle (hidle e he)
  rw [waiting, hnone]
  rfl

section

variable (h : q.Holds key e) (hkey : key.2 = KERNEL_EVFILT_USER)

include h hkey

theorem Holds.call_added (hadded : c.added = some event) (hnone : triggered key [c] = []) :
    ∃ e', (q.call c).1.Holds key e' ∧
      e.entries.map data ++ triggered key [c] =
        payloads key (q.call c).2 ++ e'.entries.map data := by
  obtain ⟨e', h', hdata⟩ := h.added hkey hadded
  rw [KernelEqueuePrivate.call_added hadded, hnone, append_nil]
  exact ⟨e', h', hdata.symm⟩

/-- **The step.** A call conserves the payloads: what the event held and what the call triggers
is what the call returns and what the event holds then. -/
theorem Holds.call (hkeep : c.Keeps key) : ∃ e', (q.call c).1.Holds key e' ∧
      e.entries.map data ++ triggered key [c] =
        payloads key (q.call c).2 ++ e'.entries.map data := by
  cases c with
  | addUserEvent | addUserEventEdge | addAmprEvent | addEqEvent
  | addVideoOutEvent => exact h.call_added hkey rfl rfl
  | addHRTimerEvent id ts udata now_ns =>
    cases hadded : (addHRTimerEvent id ts udata now_ns).added with
    | none =>
      have hcall : q.call (.addHRTimerEvent id ts udata now_ns) = (q, []) := by
        unfold call
        split
        · next heq => nomatch (heq.symm.trans hadded)
        · rfl
      rw [hcall]
      exact ⟨e, h, append_nil _⟩
    | some event => exact h.call_added hkey hadded rfl
  | triggerEvent ident filter trigger_data tsc =>
    obtain ⟨e', h', hdata⟩ := h.trigger ident filter trigger_data tsc
    exact ⟨e', h', hdata.symm⟩
  | deleteEvent ident filter => exact ⟨e, h.delete hkeep, append_nil _⟩
  | waitEqueue num now_ns =>
    obtain ⟨e', h', hdata⟩ := h.wait num now_ns
    exact ⟨e', h', (append_nil _).trans hdata⟩
  | close => exact absurd hkeep id

/-- **The run.** The same over a run of calls. -/
theorem Holds.run {calls : List Call} (hkeep : ∀ c ∈ calls, c.Keeps key) :
    ∃ e', (q.run calls).Holds key e' ∧
      e.entries.map data ++ triggered key calls =
        payloads key (q.delivered calls) ++ e'.entries.map data := by
  induction calls generalizing q e with
  | nil => exact ⟨e, h, append_nil _⟩
  | cons c calls ih =>
    obtain ⟨e1, h1, hstep⟩ := h.call hkey (hkeep c mem_cons_self)
    obtain ⟨e', h', hrest⟩ := ih h1 fun c hc => hkeep c (.tail _ hc)
    refine ⟨e', h', ?_⟩
    have htriggered : triggered key (c :: calls) = triggered key [c] ++ triggered key calls := by
      rw [triggered, flatMap_cons, triggered, flatMap_cons, flatMap_nil, append_nil, triggered]
    have hdelivered : payloads key (q.delivered (c :: calls)) =
        payloads key (q.call c).2 ++ payloads key ((q.call c).1.delivered calls) := by
      rw [delivered, payloads, filter_append, map_append, payloads, payloads]
    rw [htriggered, hdelivered, ← append_assoc, hstep, append_assoc, hrest, append_assoc]

end

theorem delivered_append (q : KernelEqueuePrivate) (calls : List Call) (c : Call) :
    q.delivered (calls ++ [c]) = q.delivered calls ++ ((q.run calls).call c).2 ∧
      q.run (calls ++ [c]) = ((q.run calls).call c).1 := by
  induction calls generalizing q with
  | nil => exact ⟨append_nil _, rfl⟩
  | cons d calls ih =>
    obtain ⟨hdelivered, hrun⟩ := ih (q.call d).1
    refine ⟨?_, hrun⟩
    rw [cons_append, delivered, hdelivered, delivered, append_assoc]
    rfl

theorem holds_of_added (id : BitVec 32) (udata : BitVec 64) (hopen : q.m_closed = false)
    (hnew : ¬ q.has (amprKey id)) :
    (q.call (.addAmprEvent id udata)).1.Holds (amprKey id) (amprEvent id udata) := by
  have hadd : q.addEvent (amprEvent id udata) rfl =
      .ok (q.pushBack (amprEvent id udata) hnew (valid_of_nil rfl)) := by
    have hnew' : ¬ q.has (amprEvent id udata).key := hnew
    unfold addEvent
    rw [hopen, if_neg (by simp), dif_neg hnew']
  have hadded : (addAmprEvent id udata).added = some (amprEvent id udata) := rfl
  rw [call_added hadded, hadd]
  exact ⟨hopen, mem_append_right _ (mem_singleton_self _), rfl, rfl, rfl, rfl, rfl⟩

end KernelEqueuePrivate

/-- **Completion events are delivered once.** From the registration of a completion event on, as
long as the event is not deleted, the payloads that the drains return, followed by those the
event holds, are the payloads triggered, in the order of the triggers; and a drain that leaves
room in its output has returned the last of them. -/
theorem ampr_delivered_once (q : KernelEqueuePrivate) (id : BitVec 32) (udata : BitVec 64)
    (calls : List Call) (num : ℤ) (now_ns : ℕ) (hopen : q.m_closed = false)
    (hnew : ¬ q.has (amprKey id)) (hkeep : ∀ c ∈ calls, c.Keeps (amprKey id)) :
    payloads (amprKey id) (q.delivered (.addAmprEvent id udata :: calls)) ++
        (q.run (.addAmprEvent id udata :: calls)).waiting (amprKey id) =
      triggered (amprKey id) calls ∧
    (((q.run (.addAmprEvent id udata :: calls)).call (.waitEqueue num now_ns)).2.length < num →
      payloads (amprKey id)
          (q.delivered (.addAmprEvent id udata :: calls ++ [.waitEqueue num now_ns])) =
        triggered (amprKey id) calls) := by
  have hstart := KernelEqueuePrivate.holds_of_added id udata hopen hnew
  obtain ⟨e, h, hrun⟩ := hstart.run rfl hkeep
  have hconserved : triggered (amprKey id) calls =
      payloads (amprKey id) (q.delivered (.addAmprEvent id udata :: calls)) ++
        (q.run (.addAmprEvent id udata :: calls)).waiting (amprKey id) :=
    hrun.trans (congrArg _ (KernelEqueuePrivate.Holds.waiting_eq h).symm)
  refine ⟨hconserved.symm, fun hroom => ?_⟩
  obtain ⟨e', h', hdata⟩ := KernelEqueuePrivate.Holds.wait h num now_ns
  have hnone : e'.entries.map data = [] :=
    h'.waiting_eq.symm.trans (KernelEqueuePrivate.waiting_of_room hroom h.opened)
  rw [hnone, append_nil, ← KernelEqueuePrivate.Holds.waiting_eq h] at hdata
  rw [(KernelEqueuePrivate.delivered_append _ _ _).1, payloads, filter_append,
    map_append, hconserved]
  exact congrArg _ hdata.symm

/-- Two triggers, a drain for one entry, one more trigger, and a drain for five. -/
theorem ampr_delivered_once_three :
    payloads (amprKey 5) (KernelEqueuePrivate.new.delivered [.addAmprEvent 5 0,
        .triggerEvent 5 KERNEL_EVFILT_USER 0x10 0, .triggerEvent 5 KERNEL_EVFILT_USER 0x20 0,
        .waitEqueue 1 0, .triggerEvent 5 KERNEL_EVFILT_USER 0x30 0, .waitEqueue 5 0]) =
      [0x10, 0x20, 0x30] :=
  (ampr_delivered_once .new 5 0
    [.triggerEvent 5 KERNEL_EVFILT_USER 0x10 0, .triggerEvent 5 KERNEL_EVFILT_USER 0x20 0,
      .waitEqueue 1 0, .triggerEvent 5 KERNEL_EVFILT_USER 0x30 0] 5 0 rfl (by decide)
    (by
      intro c hc
      simp only [mem_cons, not_mem_nil, or_false] at hc
      rcases hc with rfl | rfl | rfl | rfl <;> trivial)).2 (by decide)

/-- Where a user event has the name already, adding the completion event keeps the functions of
the user event, and the second trigger overwrites the payload of the first one. -/
theorem shared_name_loses :
    triggered (amprKey 5)
        [.triggerEvent 5 KERNEL_EVFILT_USER 0x10 0, .triggerEvent 5 KERNEL_EVFILT_USER 0x20 0,
          .waitEqueue 5 0] = [0x10, 0x20] ∧
      payloads (amprKey 5)
        ((KernelEqueuePrivate.new.run [.addUserEventEdge 5]).delivered [.addAmprEvent 5 0,
          .triggerEvent 5 KERNEL_EVFILT_USER 0x10 0, .triggerEvent 5 KERNEL_EVFILT_USER 0x20 0,
          .waitEqueue 5 0]) = [0x20] ∧
      ((KernelEqueuePrivate.new.run [.addUserEventEdge 5]).run [.addAmprEvent 5 0,
          .triggerEvent 5 KERNEL_EVFILT_USER 0x10 0, .triggerEvent 5 KERNEL_EVFILT_USER 0x20 0,
          .waitEqueue 5 0]).waiting (amprKey 5) = [] := by
  decide

end MagnusPS5.Kernel.EventQueue
