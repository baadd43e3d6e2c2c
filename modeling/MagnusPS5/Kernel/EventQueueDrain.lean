/-
What one call of `GetTriggeredEvents` returns.

An event that is triggered has its own entry to return and those that wait behind it. The
call returns the entries of all events in the order of the queue, as many as the output
holds, unless it reaches a level event with room to spare: resetting that event leaves it
triggered, and the loop writes it again and again until the output is full.
-/
import MagnusPS5.Kernel.EventQueue

namespace MagnusPS5.Kernel.EventQueue

open List KernelEqueueEvent

/-! ## Entries -/

/-- The entries of a list that belong to an event. -/
def entriesOf (e : KernelEqueueEvent) (out : List KernelEvent) : List KernelEvent :=
  out.filter fun x => x.key = e.key

namespace KernelEqueueEvent

/-- What an event has to return: itself, and what is pending behind it. -/
def entries (e : KernelEqueueEvent) : List KernelEvent :=
  if e.triggered = false then []
  else if e.oneshot then [e.event]
  else e.event :: e.pending_events

/-- Neither returning nor resetting the event ends its being triggered. -/
def level (e : KernelEqueueEvent) : Bool :=
  !e.oneshot && match e.filter.reset_func with
    | some .userEvent | none => e.event.flags &&& EV_CLEAR = 0
    | some .eopEvent | some .videoOutEvent => false

variable {e : KernelEqueueEvent} {room : ℕ}

theorem entries_of_idle (h : e.triggered = false) : e.entries = [] := if_pos h

theorem entries_of_oneshot (h : e.triggered = true) (honeshot : e.oneshot = true) :
    e.entries = [e.event] := by
  rw [entries, if_neg (by simp [h]), if_pos honeshot]

theorem entries_of_triggered (h : e.triggered = true) (honeshot : e.oneshot = false) :
    e.entries = e.event :: e.pending_events := by
  rw [entries, if_neg (by simp [h]), if_neg (by simp [honeshot])]

theorem Valid.entries_key (h : e.Valid) : ∀ x ∈ e.entries, x.key = e.key := by
  intro x hx
  unfold entries at hx
  split_ifs at hx
  · nomatch hx
  · rw [mem_singleton.mp hx]
    rfl
  · rcases mem_cons.mp hx with rfl | hx
    · rfl
    · exact h.pending_key x hx

/-! ## One event -/

theorem clear_triggered (h : e.triggered = true) :
    (if e.event.flags &&& EV_CLEAR ≠ 0 then e.clear else e).triggered =
      decide (e.event.flags &&& EV_CLEAR = 0) := by
  split_ifs with hclear
  · rw [decide_eq_false hclear]
    rfl
  · rw [h, decide_eq_true (not_not.mp hclear)]

theorem reset_triggered (honeshot : e.oneshot = false) (h : e.triggered = true) :
    e.reset.triggered = e.level := by
  unfold reset level
  rw [honeshot, Bool.not_false, Bool.true_and]
  rcases e.filter.reset_func with _ | reset_func
  · exact clear_triggered h
  · cases reset_func with
    | userEvent => exact clear_triggered h
    | eopEvent => rfl
    | videoOutEvent => rfl

theorem reset_oneshot : e.reset.oneshot = e.oneshot := by
  rw [oneshot, reset_flags, oneshot]

theorem popPending_nil (h : e.pending_events = []) : e.reset.popPending = e.reset := by
  have hreset := e.reset_pending.trans h
  unfold popPending
  rw [hreset]

theorem popPending_cons {next : KernelEvent} {rest : List KernelEvent}
    (h : e.pending_events = next :: rest) :
    e.reset.popPending =
      { e.reset with event := next, pending_events := rest, triggered := true } := by
  have hreset := e.reset_pending.trans h
  unfold popPending
  rw [hreset]

theorem Valid.popPending_oneshot (hvalid : e.Valid) : e.reset.popPending.oneshot = e.oneshot := by
  cases h : e.pending_events with
  | nil => rw [popPending_nil h, reset_oneshot]
  | cons next rest =>
    rw [popPending_cons h, oneshot, oneshot, hvalid.pending_flags next (h ▸ .head _)]

theorem Valid.popPending_level (hvalid : e.Valid) : e.reset.popPending.level = e.level := by
  have honeshot := hvalid.popPending_oneshot
  unfold level
  rw [honeshot]
  cases h : e.pending_events with
  | nil => rw [popPending_nil h, reset_filter, reset_flags]
  | cons next rest =>
    rw [popPending_cons h]
    rw [reset_filter, hvalid.pending_flags next (h ▸ .head _)]

theorem drain_of_idle (h : e.triggered = false) (room : ℕ) : e.drain room = ⟨[], [e]⟩ := by
  cases room with
  | zero => rfl
  | succ room => rw [drain, if_pos h]

theorem drain_of_oneshot (h : e.triggered = true) (honeshot : e.oneshot = true) (room : ℕ) :
    e.drain (room + 1) = ⟨[e.event], []⟩ := by
  rw [drain, if_neg (by simp [h]), if_pos honeshot]

theorem drain_of_triggered (h : e.triggered = true) (honeshot : e.oneshot = false) (room : ℕ) :
    e.drain (room + 1) =
      ⟨e.event :: (e.reset.popPending.drain room).out, (e.reset.popPending.drain room).kept⟩ := by
  rw [drain, if_neg (by simp [h]), if_neg (by simp [honeshot])]

theorem Valid.drain_key (h : e.Valid) : ∀ x ∈ (e.drain room).out, x.key = e.key := by
  induction room generalizing e with
  | zero => rintro x ⟨⟩
  | succ room ih =>
    intro x hx
    unfold drain at hx
    split_ifs at hx
    · cases hx
    · rw [mem_singleton.mp hx]
      rfl
    · rcases mem_cons.mp hx with rfl | hx
      · rfl
      · exact (ih h.popPending_reset x hx).trans h.popPending_key

/-- An event writes its entries, as far as there is room, unless it is a level event with
more room than it has entries. -/
theorem Valid.drain_eq_take (hvalid : e.Valid)
    (h : e.triggered = true → e.level = true → room ≤ e.entries.length) :
    (e.drain room).out = e.entries.take room := by
  induction room generalizing e with
  | zero => rfl
  | succ room ih =>
    cases htriggered : e.triggered with
    | false => rw [drain_of_idle htriggered, entries_of_idle htriggered, take_nil]
    | true =>
      cases honeshot : e.oneshot with
      | true =>
        rw [drain_of_oneshot htriggered honeshot, entries_of_oneshot htriggered honeshot,
          take_succ_cons, take_nil]
      | false =>
        have hentries := entries_of_triggered htriggered honeshot
        rw [drain_of_triggered htriggered honeshot, hentries, take_succ_cons]
        refine congrArg (e.event :: ·) ?_
        have hlevel := hvalid.popPending_level
        cases hpending : e.pending_events with
        | nil =>
          -- nothing follows, and a level event has no room left
          rw [popPending_nil hpending] at hlevel ⊢
          have hreset := reset_triggered honeshot htriggered
          cases hl : e.level with
          | false => rw [drain_of_idle (hreset.trans hl), take_nil]
          | true =>
            have hroom := h htriggered hl
            rw [hentries, hpending] at hroom
            obtain rfl : room = 0 := by simpa using hroom
            rfl
        | cons next rest =>
          have hnext : e.reset.popPending.triggered = true := by
            rw [popPending_cons hpending]
          have hafter : e.reset.popPending.entries = next :: rest := by
            rw [entries_of_triggered hnext (hvalid.popPending_oneshot.trans honeshot),
              popPending_cons hpending]
          rw [ih hvalid.popPending_reset, hafter]
          intro _ hl
          have hroom := h htriggered (hlevel.symm.trans hl)
          rw [hentries, hpending] at hroom
          rw [hafter]
          exact Nat.le_of_succ_le_succ hroom

theorem Valid.drain_length (hvalid : e.Valid) (htriggered : e.triggered = true)
    (hlevel : e.level = true) : (e.drain room).out.length = room := by
  induction room generalizing e with
  | zero => rfl
  | succ room ih =>
    have honeshot : e.oneshot = false := by
      rw [level, Bool.and_eq_true] at hlevel
      simpa using hlevel.1
    rw [drain_of_triggered htriggered honeshot, length_cons]
    refine congrArg (· + 1) (ih hvalid.popPending_reset ?_ (hvalid.popPending_level.trans hlevel))
    cases hpending : e.pending_events with
    | nil =>
      rw [popPending_nil hpending, reset_triggered honeshot htriggered]
      exact hlevel
    | cons next rest => rw [popPending_cons hpending]

end KernelEqueueEvent

/-! ## All events -/

variable {e : KernelEqueueEvent} {events : List KernelEqueueEvent} {room : ℕ}

/-- No level event that is triggered is reached with more room than it has entries. -/
def Bounded (room : ℕ) (events : List KernelEqueueEvent) : Prop :=
  ∀ before e after, events = before ++ e :: after → e.triggered = true → e.level = true →
    room ≤ ((before ++ [e]).flatMap KernelEqueueEvent.entries).length

theorem bounded_cons : Bounded room (e :: events) ↔
    (e.triggered = true → e.level = true → room ≤ e.entries.length) ∧
      Bounded (room - e.entries.length) events := by
  constructor
  · intro h
    constructor
    · intro htriggered hlevel
      simpa using h [] e events rfl htriggered hlevel
    · intro before x after heq htriggered hlevel
      have hroom := h (e :: before) x after (congrArg (e :: ·) heq) htriggered hlevel
      rw [cons_append, flatMap_cons, length_append] at hroom
      omega
  · rintro ⟨hfirst, hrest⟩ before x after heq htriggered hlevel
    cases before with
    | nil =>
      rw [nil_append, cons.injEq] at heq
      obtain ⟨rfl, -⟩ := heq
      simpa using hfirst htriggered hlevel
    | cons y before =>
      rw [cons_append, cons.injEq] at heq
      obtain ⟨rfl, heq⟩ := heq
      have hroom := hrest before x after heq htriggered hlevel
      rw [cons_append, flatMap_cons, length_append]
      omega

theorem drainEvents_cons (room : ℕ) (e : KernelEqueueEvent) (events : List KernelEqueueEvent) :
    drainEvents room (e :: events) =
      ⟨(e.drain room).out ++ (drainEvents (room - (e.drain room).out.length) events).out,
        (e.drain room).kept ++ (drainEvents (room - (e.drain room).out.length) events).kept⟩ := by
  cases room with
  | zero => cases events <;> rfl
  | succ room => rfl

theorem drainEvents_eq_take (hvalid : ∀ e ∈ events, e.Valid) (h : Bounded room events) :
    (drainEvents room events).out = (events.flatMap entries).take room := by
  induction events generalizing room with
  | nil => cases room <;> rfl
  | cons e events ih =>
    obtain ⟨hfirst, hrest⟩ := bounded_cons.mp h
    have hout := (hvalid e mem_cons_self).drain_eq_take hfirst
    have hroom : room - (e.entries.take room).length = room - e.entries.length := by
      rw [length_take]
      omega
    have htail := ih (fun x hx => hvalid x (.tail _ hx)) hrest
    rw [drainEvents_cons, hout, hroom, htail, flatMap_cons, take_append]

/-- A level event that is reached with more room than it has entries is returned more often
than it has entries. -/
theorem exists_repeated (hvalid : ∀ e ∈ events, e.Valid) (h : ¬ Bounded room events) :
    ∃ e ∈ events, e.entries.length < (entriesOf e (drainEvents room events).out).length := by
  induction events generalizing room with
  | nil =>
    refine absurd (fun before e after heq => ?_) h
    exact absurd heq (by simp)
  | cons e events ih =>
    have he := hvalid e mem_cons_self
    rw [drainEvents_cons]
    by_cases hfirst : e.triggered = true → e.level = true → room ≤ e.entries.length
    · -- the first event has returned its entries, and the loop goes on
      have hrest : ¬ Bounded (room - e.entries.length) events := fun hrest =>
        h (bounded_cons.mpr ⟨hfirst, hrest⟩)
      have hroom : room - (e.drain room).out.length = room - e.entries.length := by
        rw [he.drain_eq_take hfirst, length_take]
        omega
      obtain ⟨x, hx, hlong⟩ := ih (fun x hx => hvalid x (.tail _ hx)) hrest
      refine ⟨x, .tail _ hx, lt_of_lt_of_le hlong ?_⟩
      rw [hroom, entriesOf, entriesOf, filter_append, length_append]
      exact Nat.le_add_left _ _
    · -- the first event fills the output
      simp only [not_forall, not_le] at hfirst
      obtain ⟨htriggered, hlevel, hlong⟩ := hfirst
      refine ⟨e, .head _, lt_of_lt_of_le hlong ?_⟩
      have hall : entriesOf e (e.drain room).out = (e.drain room).out :=
        filter_eq_self.mpr fun x hx => by simpa using he.drain_key x hx
      rw [entriesOf, filter_append, length_append]
      change room ≤ (entriesOf e (e.drain room).out).length + _
      rw [hall, he.drain_length htriggered hlevel]
      exact Nat.le_add_right _ _

theorem mem_kept_of_not_returned (he : e ∈ events)
    (hnone : entriesOf e (drainEvents room events).out = []) :
    e ∈ (drainEvents room events).kept := by
  induction events generalizing room with
  | nil => cases he
  | cons x events ih =>
    rw [drainEvents_cons] at hnone ⊢
    rw [entriesOf, filter_append, append_eq_nil_iff] at hnone
    rcases mem_cons.mp he with rfl | he
    · refine mem_append_left _ ?_
      cases room with
      | zero => exact mem_singleton_self _
      | succ room =>
        cases htriggered : e.triggered with
        | false =>
          rw [drain_of_idle htriggered]
          exact mem_singleton_self _
        | true =>
          -- it is reached, and its own entry is written
          refine absurd hnone.1 (ne_nil_of_mem (a := e.event) ?_)
          refine mem_filter.mpr ⟨?_, decide_eq_true rfl⟩
          cases honeshot : e.oneshot with
          | true =>
            rw [drain_of_oneshot htriggered honeshot]
            exact mem_singleton_self _
          | false =>
            rw [drain_of_triggered htriggered honeshot]
            exact .head _
    · exact mem_append_right _ (ih he hnone.2)

/-! ## One call -/

/-- **What is claimed of a call** on the events `due`, whose timers have been looked at: it
returns at most `num` entries, all of them of registered events, and of each event the event
itself and what is pending behind it, in this order. A triggered event is left out only where
the entries of the others fill the output, and an event that is left out is not touched. -/
structure Fair (due : List KernelEqueueEvent) (num : ℕ) (out : List KernelEvent)
    (after : List KernelEqueueEvent) : Prop where
  bounded : out.length ≤ num
  known : ∀ x ∈ out, ∃ e ∈ due, x.key = e.key
  once : ∀ e ∈ due, entriesOf e out <+: e.entries
  slots : ∀ e ∈ due, e.triggered = true → entriesOf e out = [] →
    num ≤ ((due.filter fun other => other.key ≠ e.key).flatMap KernelEqueueEvent.entries).length
  untouched : ∀ e ∈ due, entriesOf e out = [] → e ∈ after

/-- A call of `GetTriggeredEvents` that returns is fair. -/
def DrainsFairly (q : KernelEqueuePrivate) (num : ℤ) (now_ns : ℕ) : Prop :=
  ∀ out q', q.getTriggeredEvents num now_ns = some (.ok (out, q')) →
    Fair (q.triggerExpiredTimers now_ns).m_events num.toNat out q'.m_events

theorem drainEvents_length_le (room : ℕ) (events : List KernelEqueueEvent) :
    (drainEvents room events).out.length ≤ room := by
  induction events generalizing room with
  | nil => cases room <;> exact Nat.zero_le _
  | cons e events ih =>
    rw [drainEvents_cons, length_append]
    have hfirst := e.drain_length_le room
    have hrest := ih (room - (e.drain room).out.length)
    omega

theorem drainEvents_known (hvalid : ∀ e ∈ events, e.Valid) :
    ∀ x ∈ (drainEvents room events).out, ∃ e ∈ events, x.key = e.key := by
  induction events generalizing room with
  | nil =>
    intro x hx
    cases room <;> nomatch hx
  | cons e events ih =>
    intro x hx
    rw [drainEvents_cons] at hx
    rcases mem_append.mp hx with hx | hx
    · exact ⟨e, mem_cons_self, (hvalid e mem_cons_self).drain_key x hx⟩
    · obtain ⟨y, hy, hkey⟩ := ih (fun y hy => hvalid y (.tail _ hy)) x hx
      exact ⟨y, .tail _ hy, hkey⟩

theorem entriesOf_flatMap (hnodup : (events.map key).Nodup)
    (hvalid : ∀ e ∈ events, e.Valid) (he : e ∈ events) :
    entriesOf e (events.flatMap entries) = e.entries := by
  have hnone {xs : List KernelEqueueEvent} (hxs : ∀ x ∈ xs, x.Valid)
      (hkey : ∀ x ∈ xs, x.key ≠ e.key) :
      entriesOf e (xs.flatMap entries) = [] := by
    rw [entriesOf, filter_eq_nil_iff]
    intro y hy
    obtain ⟨x, hx, hyx⟩ := mem_flatMap.mp hy
    simpa [(hxs x hx).entries_key y hyx] using hkey x hx
  induction events with
  | nil => cases he
  | cons x events ih =>
    rw [map_cons, nodup_cons] at hnodup
    have hrest := fun y hy => hvalid y (mem_cons_of_mem x hy)
    have hx := hvalid x mem_cons_self
    rw [flatMap_cons, entriesOf, filter_append]
    change entriesOf e x.entries ++ entriesOf e (events.flatMap _) = _
    rcases mem_cons.mp he with rfl | he
    · rw [hnone hrest fun y hy hkey => hnodup.1 (hkey ▸ mem_map_of_mem hy), append_nil]
      exact filter_eq_self.mpr fun y hy => by simpa using hx.entries_key y hy
    · have hne : x.key ≠ e.key := fun hkey => hnodup.1 (hkey ▸ mem_map_of_mem he)
      rw [ih hnodup.2 hrest he]
      have hfirst : entriesOf e x.entries = [] := by
        rw [entriesOf, filter_eq_nil_iff]
        intro y hy
        simpa [hx.entries_key y hy] using hne
      rw [hfirst, nil_append]

theorem slots_of_take (hnodup : (events.map key).Nodup) (he : e ∈ events)
    (htriggered : e.triggered = true)
    (hnone : entriesOf e ((events.flatMap entries).take room) = []) :
    room ≤ ((events.filter fun other => other.key ≠ e.key).flatMap
      entries).length := by
  obtain ⟨before, after, rfl⟩ := append_of_mem he
  rw [map_append, map_cons, nodup_append] at hnodup
  have hbefore : before.filter (fun other => other.key ≠ e.key) = before := by
    refine filter_eq_self.mpr fun x hx => decide_eq_true fun hkey => ?_
    exact hnodup.2.2 _ (mem_map_of_mem hx) _ mem_cons_self hkey
  have hfull : room ≤ (before.flatMap entries).length := by
    by_contra hroom
    rw [not_le] at hroom
    -- the entry of the event itself is among the first ones
    refine absurd hnone (ne_nil_of_mem (a := e.event) ?_)
    refine mem_filter.mpr ⟨?_, decide_eq_true rfl⟩
    rw [flatMap_append, take_append, flatMap_cons, take_append]
    refine mem_append_right _ (mem_append_left _ ?_)
    obtain ⟨k, hk⟩ : ∃ k, room - (before.flatMap entries).length = k + 1 :=
      ⟨room - (before.flatMap entries).length - 1, by omega⟩
    rw [hk]
    cases honeshot : e.oneshot with
    | true =>
      rw [entries_of_oneshot htriggered honeshot]
      exact .head _
    | false =>
      rw [entries_of_triggered htriggered honeshot]
      exact .head _
  rw [filter_append, hbefore, flatMap_append, length_append]
  exact hfull.trans (Nat.le_add_right _ _)

theorem fair_iff (room : ℕ) (hnodup : (events.map key).Nodup) (hvalid : ∀ e ∈ events, e.Valid) :
    Fair events room (drainEvents room events).out (drainEvents room events).kept ↔
      Bounded room events := by
  constructor
  · intro h
    by_contra hbounded
    obtain ⟨e, he, hlong⟩ := exists_repeated hvalid hbounded
    exact absurd (h.once e he).length_le (not_le.mpr hlong)
  · intro h
    refine ⟨drainEvents_length_le _ _, drainEvents_known hvalid, fun e he => ?_,
      fun e he htriggered hnone => ?_, fun e he => mem_kept_of_not_returned he⟩
    · rw [drainEvents_eq_take hvalid h, ← entriesOf_flatMap hnodup hvalid he]
      exact ( take_prefix _ _).filter _
    · rw [drainEvents_eq_take hvalid h] at hnone
      exact slots_of_take hnodup he htriggered hnone

/-- **A call is fair exactly if it reaches no level event with room to spare.** The condition is
on the queue before the call: up to every triggered level event, its own entries included, there
are at least as many entries as the output holds. -/
theorem drainsFairly_iff (q : KernelEqueuePrivate) (num : ℤ) (now_ns : ℕ) :
    DrainsFairly q num now_ns ↔
      (q.m_closed = false → 1 ≤ num →
        ∀ before e after, (q.triggerExpiredTimers now_ns).m_events = before ++ e :: after →
          e.triggered = true → e.level = true →
          num ≤ ((before ++ [e]).flatMap KernelEqueueEvent.entries).length) := by
  have hfair := fair_iff num.toNat (q.triggerExpiredTimers now_ns).nodup
    (q.triggerExpiredTimers now_ns).valid
  constructor
  · intro h hopen hnum before e after heq htriggered hlevel
    have hcall := h _ _ (by
      rw [KernelEqueuePrivate.getTriggeredEvents, if_neg (by omega), hopen, if_neg (by simp)])
    have hbounded := hfair.mp hcall before e after heq htriggered hlevel
    omega
  · intro h out q' hcall
    rw [KernelEqueuePrivate.getTriggeredEvents] at hcall
    split_ifs at hcall with hnum hclosed
    · exact nomatch hcall
    · simp only [Option.some.injEq, Except.ok.injEq, Prod.mk.injEq] at hcall
      obtain ⟨rfl, rfl⟩ := hcall
      refine hfair.mpr fun before e after heq htriggered hlevel => ?_
      have hroom := h (by simpa using hclosed) (by omega) before e after heq htriggered hlevel
      omega

/-- A queue with a level event and an edge event, both of them triggered. -/
def levelQueue : KernelEqueuePrivate :=
  KernelEqueuePrivate.new.run [.addUserEvent 1, .addUserEventEdge 2,
    .triggerEvent 1 KERNEL_EVFILT_USER 0x10 0, .triggerEvent 2 KERNEL_EVFILT_USER 0x20 0]

/-- The level event is returned twice, and the other one not at all. -/
theorem level_event_takes_slots : ¬ DrainsFairly levelQueue 2 0 := by
  intro h
  have hcall := h _ _ rfl
  have honce := hcall.once (levelQueue.m_events.get ⟨0, by decide⟩) (by decide)
  exact nomatch honce

end MagnusPS5.Kernel.EventQueue
