/-
The tokens of a semaphore over all interleavings: none is created, lost or handed to a
call that does not get its grant.

`Inv` is the invariant of a run. It is kept by every step but a signal whose sum with the
count is negative or does not fit an `int`; `semaphore_tokens` says that these are the only
runs in which the tokens do not add up.
-/
import MagnusPS5.Kernel.Semaphore
import Mathlib.Data.List.Basic
import Mathlib.Tactic.Linarith

namespace MagnusPS5.Kernel.KernelSema

open List WaitingThread KernelSemaPrivate
open Nat (lt_succ_self lt_of_succ_le le_of_succ_le)

/-! ## The ledger of a history -/

/-- The count the semaphore started with, or got from the last cancel. -/
def base (init_count : ℤ) : List Event → ℤ
  | [] => init_count
  | .reset count :: _ => count
  | _ :: history => base init_count history

/-- The signals accepted since the last cancel. -/
def signals : List Event → ℤ
  | [] => 0
  | .reset _ :: _ => 0
  | .signaled signal_count :: history => signal_count + signals history
  | _ :: history => signals history

/-- The tokens handed out since the last cancel. -/
def handed : List Event → ℤ
  | [] => 0
  | .reset _ :: _ => 0
  | .handed _ need_count :: history => need_count + handed history
  | _ :: history => handed history

/-- The tokens one call of `Wait` got. -/
def tokens (call : ℕ) : List Event → ℤ
  | [] => 0
  | .handed call' need_count :: history =>
    if call' = call then need_count + tokens call history else tokens call history
  | _ :: history => tokens call history

theorem tokens_handed_self (call : ℕ) (n : ℤ) (history : List Event) :
    tokens call (.handed call n :: history) = n + tokens call history :=
  if_pos rfl

theorem tokens_handed_of_ne {call call' : ℕ} (h : call' ≠ call) (n : ℤ) (history : List Event) :
    tokens call (.handed call' n :: history) = tokens call history :=
  if_neg h

namespace KernelSemaPrivate

/-- **What holds in every state of a good run**: the count is in its bounds, the tokens add
up, a call that returns without success has got none, and the head of the queue cannot be
satisfied unless it has its grant. -/
structure Sound (σ : KernelSemaPrivate) : Prop where
  count_nonneg : 0 ≤ σ.m_count
  count_le : σ.m_count ≤ σ.m_max_count
  balance : base σ.m_init_count σ.history + signals σ.history = σ.m_count + handed σ.history
  returned : ∀ call result micros, Event.returned call result micros ∈ σ.history →
    result ≠ .ok → tokens call σ.history = 0
  head : ∀ waiter ∈ σ.m_waiting_threads.head?, waiter.ready = false →
    σ.m_count < waiter.need_count

/-! ## The invariant -/

/-- A thread in the queue: without a grant it has no tokens and cannot be satisfied; with
one it has what it needs, and with another result nothing. -/
structure WaiterOk (count : ℤ) (history : List Event) (waiter : WaitingThread) : Prop where
  need_pos : 1 ≤ waiter.need_count
  waits : waiter.ready = false → count < waiter.need_count
  tokens_eq : tokens waiter.call history =
    if waiter.ready = true ∧ waiter.result = .ok then waiter.need_count else 0

/-- The invariant of a run. -/
structure Inv (σ : KernelSemaPrivate) : Prop where
  max_le : σ.m_max_count ≤ INT_MAX
  init_nonneg : 0 ≤ σ.m_init_count
  init_le : σ.m_init_count ≤ σ.m_max_count
  count_nonneg : 0 ≤ σ.m_count
  count_le : σ.m_count ≤ σ.m_max_count
  balance : base σ.m_init_count σ.history + signals σ.history = σ.m_count + handed σ.history
  nodup : (σ.m_waiting_threads.map WaitingThread.call).Nodup
  calls_lt : ∀ waiter ∈ σ.m_waiting_threads, waiter.call < σ.calls
  waiters : ∀ waiter ∈ σ.m_waiting_threads, WaiterOk σ.m_count σ.history waiter
  returned : ∀ call result micros, Event.returned call result micros ∈ σ.history →
    call < σ.calls ∧ call ∉ σ.m_waiting_threads.map WaitingThread.call ∧
      (result ≠ .ok → tokens call σ.history = 0)
  fresh : ∀ call, σ.calls ≤ call → tokens call σ.history = 0

variable {σ : KernelSemaPrivate}

theorem Inv.sound (h : Inv σ) : Sound σ where
  count_nonneg := h.count_nonneg
  count_le := h.count_le
  balance := h.balance
  returned call result micros hr := (h.returned call result micros hr).2.2
  head waiter hw := (h.waiters waiter (mem_of_mem_head? hw)).waits

theorem inv_new (fifo : Bool) {init_count max_count : ℤ} (h0 : 0 ≤ init_count)
    (hle : init_count ≤ max_count) (hmax : max_count ≤ INT_MAX) :
    Inv (new fifo init_count max_count) where
  max_le := hmax
  init_nonneg := h0
  init_le := hle
  count_nonneg := h0
  count_le := hle
  balance := rfl
  nodup := nodup_nil
  calls_lt := nofun
  waiters := nofun
  returned := fun _ _ _ hr => nomatch hr
  fresh := fun _ _ => rfl

/-! ## Threads that are woken -/

variable {count signal_count : ℤ} {history : List Event} {waiters : List WaitingThread}

/-- **WakeWaiters.** The loop moves tokens from the count to threads that wait, and those
it leaves waiting cannot be satisfied. -/
theorem wakeLoop_spec (hcount : 0 ≤ count) (hnodup : (waiters.map call).Nodup)
    (hneed : ∀ w ∈ waiters, 1 ≤ w.need_count) (htokens : ∀ w ∈ waiters, tokens w.call history =
      if w.ready = true ∧ w.result = .ok then w.need_count else 0) :
    let r := wakeLoop count history waiters
    0 ≤ r.1 ∧ r.1 ≤ count ∧
      (∀ init_count, base init_count r.2.1 = base init_count history) ∧
      signals r.2.1 = signals history ∧ r.1 + handed r.2.1 = count + handed history ∧
      (∀ call, call ∉ waiters.map WaitingThread.call →
        tokens call r.2.1 = tokens call history) ∧
      (∀ call result micros, .returned call result micros ∈ r.2.1 →
        Event.returned call result micros ∈ history) ∧
      r.2.2.map WaitingThread.call = waiters.map call ∧
      ∀ w ∈ r.2.2, WaiterOk r.1 r.2.1 w := by
  induction waiters generalizing count history with
  | nil =>
    exact ⟨hcount, le_refl _, fun _ => rfl, rfl, rfl, fun _ _ => rfl, fun _ _ _ h => h, rfl,
      fun w hw => nomatch hw⟩
  | cons waiter rest ih =>
    rw [map_cons, nodup_cons] at hnodup
    have hneed' : ∀ w ∈ rest, 1 ≤ w.need_count :=
      fun w hw => hneed w (.tail _ hw)
    have htokens' : ∀ w ∈ rest, tokens w.call history =
        if w.ready = true ∧ w.result = .ok then w.need_count else 0 :=
      fun w hw => htokens w (.tail _ hw)
    have hne : ∀ w ∈ rest, waiter.call ≠ w.call :=
      fun w hw heq => hnodup.1 (heq ▸ mem_map_of_mem hw)
    unfold wakeLoop
    by_cases hgrant : waiter.ready = false ∧ waiter.need_count ≤ count
    · rw [if_pos hgrant]
      obtain ⟨hpos, hle, hbase, hsig, hsum, hother, hret, hmap, hok⟩ :=
        @ih (count - waiter.need_count) (.handed waiter.call waiter.need_count :: history)
          (by omega) hnodup.2 hneed'
          (fun w hw => (tokens_handed_of_ne (hne w hw) _ _).trans (htokens' w hw))
      dsimp only
      have hfirst := hneed waiter mem_cons_self
      refine ⟨hpos, by omega, hbase, hsig, ?_, ?_, ?_, ?_, ?_⟩
      · have hhanded : handed (.handed waiter.call waiter.need_count :: history)
            = waiter.need_count + handed history := rfl
        rw [hhanded] at hsum
        omega
      · intro call hcall
        rw [map_cons, mem_cons, not_or] at hcall
        exact (hother call hcall.2).trans (tokens_handed_of_ne (Ne.symm hcall.1) _ _)
      · intro call result micros hr
        obtain h | h := mem_cons.mp (hret call result micros hr)
        · cases h
        · exact h
      · rw [map_cons, map_cons, hmap]
      · intro w hw
        obtain rfl | hw := mem_cons.mp hw
        · refine ⟨hfirst, fun h => absurd h (by simp), ?_⟩
          -- the grant of the first thread; the rest of the loop does not touch it
          have hold := htokens waiter mem_cons_self
          rw [if_neg (by simp [hgrant.1])] at hold
          rw [if_pos ⟨rfl, rfl⟩]
          rw [hother _ hnodup.1, tokens_handed_self, hold, add_zero]
        · exact hok w hw
    · rw [if_neg hgrant]
      obtain ⟨hpos, hle, hbase, hsig, hsum, hother, hret, hmap, hok⟩ :=
        ih hcount hnodup.2 hneed' htokens'
      dsimp only
      refine ⟨hpos, hle, hbase, hsig, hsum, ?_, hret, ?_, ?_⟩
      · intro call hcall
        rw [map_cons, mem_cons, not_or] at hcall
        exact hother call hcall.2
      · rw [map_cons, map_cons, hmap]
      · intro w hw
        obtain rfl | hw := mem_cons.mp hw
        · refine ⟨hneed _ mem_cons_self, fun hready => ?_, ?_⟩
          · -- the count only falls while the loop goes on
            have hshort : ¬ w.need_count ≤ count := fun h => hgrant ⟨hready, h⟩
            omega
          · rw [hother _ hnodup.1]
            exact htokens _ mem_cons_self
        · exact hok w hw

/-! ## What one step does -/

theorem Inv.ret (h : Inv σ) {call : ℕ} {result : Result} (micros : Option ℕ) (hlt : call < σ.calls)
    (hout : call ∉ σ.m_waiting_threads.map WaitingThread.call)
    (hnone : result ≠ .ok → tokens call σ.history = 0) : Inv (σ.ret call result micros) :=
  { h with
    waiters := fun w hw => ⟨(h.waiters w hw).need_pos, (h.waiters w hw).waits,
      (h.waiters w hw).tokens_eq⟩
    returned := by
      intro call' result' micros' hr
      obtain heq | hr := mem_cons.mp hr
      · cases heq
        exact ⟨hlt, hout, hnone⟩
      · exact h.returned call' result' micros' hr }

theorem Inv.newCall (h : Inv σ) : Inv { σ with calls := σ.calls + 1 } :=
  { h with
    calls_lt := fun w hw => (h.calls_lt w hw).trans (lt_succ_self _)
    returned := fun call result micros hr =>
      ⟨(h.returned call result micros hr).1.trans (lt_succ_self _),
        (h.returned call result micros hr).2⟩
    fresh := fun call hle => h.fresh call (le_of_succ_le hle) }

theorem Inv.call_notMem (h : Inv σ) : σ.calls ∉ σ.m_waiting_threads.map call := by
  intro hmem
  obtain ⟨w, hw, heq⟩ := mem_map.mp hmem
  exact (h.calls_lt w hw).ne heq

theorem markReady_call (result : Result) (w : WaitingThread) :
    (markReady result w).call = w.call := by
  unfold markReady
  split <;> rfl

theorem map_call_markReady (result : Result) (waiters : List WaitingThread) :
    (waiters.map (markReady result)).map call = waiters.map call := by
  rw [map_map]
  exact map_congr_left fun w _ => markReady_call result w

theorem WaiterOk.markReady {count' : ℤ} {history' : List Event}
    {waiter : WaitingThread} (h : WaiterOk count history waiter) {result : Result}
    (hres : result ≠ .ok) (htokens : tokens waiter.call history' = tokens waiter.call history) :
    WaiterOk count' history' (markReady result waiter) := by
  unfold KernelSemaPrivate.markReady
  cases hready : waiter.ready with
  | true =>
    rw [if_pos rfl]
    exact ⟨h.need_pos, fun hf => absurd hready (by simp [hf]), htokens.trans h.tokens_eq⟩
  | false =>
    rw [if_neg nofun]
    refine ⟨h.need_pos, fun hf => absurd hf (by simp), ?_⟩
    rw [if_neg (fun hok => hres hok.2)]
    have hzero := h.tokens_eq
    rw [if_neg (by simp [hready])] at hzero
    exact htokens.trans hzero

theorem Inv.delete (h : Inv σ) : Inv σ.delete :=
  { h with
    nodup := by
      show ((σ.m_waiting_threads.map (markReady .deleted)).map call).Nodup
      rw [map_call_markReady]
      exact h.nodup
    calls_lt := forall_mem_map.mpr fun v hv => (markReady_call _ v).symm ▸ h.calls_lt v hv
    waiters := forall_mem_map.mpr fun v hv => (h.waiters v hv).markReady (by decide) rfl
    returned := by
      intro call result micros hr
      show _ ∧ call ∉ (σ.m_waiting_threads.map (markReady .deleted)).map WaitingThread.call ∧ _
      rw [map_call_markReady]
      exact h.returned call result micros hr }

/-- **Cancel.** The ledger starts again at the new count. -/
theorem Inv.cancel (h : Inv σ) (set_count : ℤ) : Inv (σ.cancel set_count).2.2 := by
  unfold KernelSemaPrivate.cancel
  by_cases hbig : σ.m_max_count < set_count
  · rw [if_pos hbig]
    exact h
  rw [if_neg hbig]
  by_cases hdel : σ.m_status = .deleted
  · rw [if_pos hdel]
    exact h
  rw [if_neg hdel]
  have hinit := h.init_nonneg
  have hle := h.init_le
  exact
    { h with
      count_nonneg := by
        show 0 ≤ if set_count < 0 then σ.m_init_count else set_count
        split <;> omega
      count_le := by
        show (if set_count < 0 then σ.m_init_count else set_count) ≤ σ.m_max_count
        split <;> omega
      balance := rfl
      nodup := by
        rw [map_call_markReady]
        exact h.nodup
      calls_lt := forall_mem_map.mpr fun v hv => (markReady_call _ v).symm ▸ h.calls_lt v hv
      waiters := forall_mem_map.mpr fun v hv => (h.waiters v hv).markReady (by decide) rfl
      returned := by
        intro call result micros hr
        rw [map_call_markReady]
        obtain heq | hr := mem_cons.mp hr
        · cases heq
        · exact h.returned call result micros hr }

/-- A signal whose sum with the count is an `int` that is not negative. -/
def SignalFits (σ : KernelSemaPrivate) (signal_count : ℤ) : Prop :=
  σ.m_status = .deleted ∨
    0 ≤ σ.m_count + signal_count ∧ σ.m_count + signal_count ≤ INT_MAX

/-- **Signal.** The tokens that come in go to the count, and from there to the threads
that can be satisfied. -/
theorem Inv.signal (h : Inv σ)
    (hfits : σ.SignalFits signal_count) : Inv (σ.signal signal_count).2 := by
  unfold KernelSemaPrivate.signal
  by_cases hdel : σ.m_status = .deleted
  · rw [if_pos hdel]
    exact h
  rw [if_neg hdel]
  obtain ⟨hlo, hhi⟩ := hfits.resolve_left hdel
  rw [addInt_of_le hlo hhi]
  by_cases hbig : σ.m_max_count < σ.m_count + signal_count
  · rw [if_pos hbig]
    exact h
  rw [if_neg hbig]
  obtain ⟨hpos, hle, hbase, hsig, hsum, hother, hret, hmap, hok⟩ :=
    @wakeLoop_spec _ (.signaled signal_count :: σ.history) _ hlo h.nodup
      (fun w hw => (h.waiters w hw).need_pos) (fun w hw => (h.waiters w hw).tokens_eq)
  have hfirst : signals (.signaled signal_count :: σ.history)
      = signal_count + signals σ.history := rfl
  have hsame : handed (.signaled signal_count :: σ.history) = handed σ.history := rfl
  have hold := h.balance
  rw [hfirst] at hsig
  rw [hsame] at hsum
  refine
    { max_le := h.max_le
      init_nonneg := h.init_nonneg
      init_le := h.init_le
      count_nonneg := hpos
      count_le := hle.trans (not_lt.mp hbig)
      balance := ?_
      nodup := ?_
      calls_lt := ?_
      waiters := hok
      returned := ?_
      fresh := ?_ }
  · show base σ.m_init_count (wakeLoop _ _ _).2.1 + signals (wakeLoop _ _ _).2.1
      = (wakeLoop _ _ _).1 + handed (wakeLoop _ _ _).2.1
    have hb : base σ.m_init_count (.signaled signal_count :: σ.history)
        = base σ.m_init_count σ.history := rfl
    rw [hbase, hsig, hsum, hb]
    omega
  · show ((wakeLoop _ _ _).2.2.map call).Nodup
    rw [hmap]
    exact h.nodup
  · intro w hw
    have hmem : w.call ∈ σ.m_waiting_threads.map call :=
      hmap ▸ mem_map_of_mem hw
    obtain ⟨v, hv, heq⟩ := mem_map.mp hmem
    exact heq ▸ h.calls_lt v hv
  · intro call result micros hr
    obtain heq | hr := mem_cons.mp (hret call result micros hr)
    · cases heq
    · obtain ⟨hlt, hout, hnone⟩ := h.returned call result micros hr
      refine ⟨hlt, ?_, fun hne => (hother call hout).trans (hnone hne)⟩
      show call ∉ (wakeLoop _ _ _).2.2.map WaitingThread.call
      rw [hmap]
      exact hout
  · intro call hcall
    refine (hother call ?_).trans (h.fresh call hcall)
    intro hmem
    obtain ⟨v, hv, heq⟩ := mem_map.mp hmem
    have hcall' : σ.calls ≤ call := hcall
    have hlt := h.calls_lt v hv
    omega

theorem perm_addWaiter (fifo : Bool) (waiter : WaitingThread) (waiters : List WaitingThread) :
    (addWaiter fifo waiter waiters).Perm (waiter :: waiters) := by
  induction waiters with
  | nil => exact .refl _
  | cons w rest ih =>
    unfold addWaiter
    split
    · exact (ih.cons w).trans (.swap waiter w rest)
    · exact .refl _

/-- **Wait** up to its return or its first sleep. -/
theorem Inv.wait (h : Inv σ) (need_count : ℤ) (ptr_micros : Option ℕ)
    (priority : ℤ) : Inv (σ.wait need_count ptr_micros priority) := by
  have hnew := h.newCall
  have hzero : tokens σ.calls σ.history = 0 := h.fresh σ.calls le_rfl
  unfold KernelSemaPrivate.wait
  by_cases hneed : need_count < 1 ∨ σ.m_max_count < need_count
  · rw [if_pos hneed]
    exact hnew.ret ptr_micros (lt_succ_self _) h.call_notMem (fun _ => hzero)
  rw [if_neg hneed]
  by_cases hdel : σ.m_status = .deleted
  · rw [if_pos hdel]
    exact hnew.ret ptr_micros (lt_succ_self _) h.call_notMem (fun _ => hzero)
  rw [if_neg hdel]
  by_cases hfast : need_count ≤ σ.m_count
  · -- the tokens go to the call without a detour through the queue
    rw [if_pos hfast]
    have hcount := h.count_le
    have hother : ∀ w ∈ σ.m_waiting_threads, σ.calls ≠ w.call :=
      fun w hw => (h.calls_lt w hw).ne'
    refine
      { hnew with
        count_nonneg := by
          show 0 ≤ σ.m_count - need_count
          omega
        count_le := by
          show σ.m_count - need_count ≤ σ.m_max_count
          omega
        balance := ?_
        waiters := ?_
        returned := ?_
        fresh := ?_ }
    · have hold := h.balance
      show base σ.m_init_count σ.history + signals σ.history
        = σ.m_count - need_count + (need_count + handed σ.history)
      omega
    · intro w hw
      have hw' := h.waiters w hw
      refine ⟨hw'.need_pos, fun hready => ?_, ?_⟩
      · have hlt := hw'.waits hready
        show σ.m_count - need_count < w.need_count
        omega
      · exact (tokens_handed_of_ne (hother w hw) _ _).trans hw'.tokens_eq
    · intro call result micros hr
      obtain heq | hr := mem_cons.mp hr
      · cases heq
        exact ⟨lt_succ_self _, h.call_notMem, fun hne => absurd rfl hne⟩
      · obtain heq | hr := mem_cons.mp hr
        · cases heq
        · obtain ⟨hlt, hout, hnone⟩ := h.returned call result micros hr
          refine ⟨hlt.trans (lt_succ_self _), hout, fun hne => ?_⟩
          exact (tokens_handed_of_ne hlt.ne' _ _).trans (hnone hne)
    · intro call hcall
      have hne : σ.calls ≠ call := (lt_of_succ_le hcall).ne
      exact (tokens_handed_of_ne hne _ _).trans (h.fresh call (le_of_succ_le hcall))
  rw [if_neg hfast]
  by_cases hpoll : ptr_micros = some 0
  · rw [if_pos hpoll]
    exact hnew.ret ptr_micros (lt_succ_self _) h.call_notMem (fun _ => hzero)
  rw [if_neg hpoll]
  -- the thread joins the queue, wherever its priority puts it
  set waiter : WaitingThread := ⟨σ.calls, ptr_micros, if σ.m_fifo_order then 0 else priority,
    need_count, .timedOut, false⟩ with hwaiter
  have hperm := perm_addWaiter σ.m_fifo_order waiter σ.m_waiting_threads
  have hmap := hperm.map call
  refine
    { hnew with
      nodup := hmap.nodup_iff.mpr (nodup_cons.mpr ⟨h.call_notMem, h.nodup⟩)
      calls_lt := ?_
      waiters := ?_
      returned := ?_ }
  · intro w hw
    obtain rfl | hw := mem_cons.mp (hperm.mem_iff.mp hw)
    · exact lt_succ_self _
    · exact hnew.calls_lt w hw
  · intro w hw
    obtain rfl | hw := mem_cons.mp (hperm.mem_iff.mp hw)
    · refine ⟨?_, fun _ => not_le.mp hfast, ?_⟩
      · show 1 ≤ need_count
        omega
      · rw [if_neg (fun hok => nomatch hok.1)]
        exact hzero
    · exact h.waiters w hw
  · intro call result micros hr
    obtain ⟨hlt, hout, hnone⟩ := h.returned call result micros hr
    refine ⟨hlt.trans (lt_succ_self _), fun hmem => ?_, hnone⟩
    obtain heq | hmem := mem_cons.mp (hmap.mem_iff.mp hmem)
    · exact hlt.ne heq
    · exact hout hmem

theorem removeWaiter_sublist (call : ℕ) (waiters : List WaitingThread) :
    (removeWaiter call waiters).Sublist waiters :=
  eraseP_sublist

theorem notMem_removeWaiter {call : ℕ} (hnodup : (waiters.map WaitingThread.call).Nodup) :
    call ∉ (removeWaiter call waiters).map WaitingThread.call := by
  induction waiters with
  | nil => exact not_mem_nil
  | cons w rest ih =>
    rw [map_cons, nodup_cons] at hnodup
    unfold removeWaiter
    by_cases hw : w.call = call
    · rw [eraseP_cons_of_pos (by simpa using hw)]
      exact hw ▸ hnodup.1
    · rw [eraseP_cons_of_neg (by simpa using hw), map_cons, mem_cons, not_or]
      exact ⟨Ne.symm hw, ih hnodup.2⟩

theorem Inv.remove (h : Inv σ) (call : ℕ) :
    Inv { σ with m_waiting_threads := removeWaiter call σ.m_waiting_threads } :=
  have hsub := removeWaiter_sublist call σ.m_waiting_threads
  { h with
    nodup := (hsub.map _).nodup h.nodup
    calls_lt := fun w hw => h.calls_lt w (hsub.subset hw)
    waiters := fun w hw => h.waiters w (hsub.subset hw)
    returned := fun call' result micros hr =>
      ⟨(h.returned call' result micros hr).1,
        fun hmem => (h.returned call' result micros hr).2.1 ((hsub.map _).subset hmem),
        (h.returned call' result micros hr).2.2⟩ }

/-- **Wait** after a wake-up: a grant that came in the meantime is taken, and only a
thread without one times out. -/
theorem Inv.resume (h : Inv σ) (call elapsed : ℕ) : Inv (σ.resume call elapsed) := by
  unfold KernelSemaPrivate.resume
  cases hfind : σ.m_waiting_threads.find? (fun waiter => waiter.call = call) with
  | none => exact h
  | some waiter =>
    have hmem := mem_of_find?_eq_some hfind
    have hcall : waiter.call = call := by
      have := find?_some hfind
      simpa using this
    have hok := h.waiters waiter hmem
    have hlt : call < σ.calls := hcall ▸ h.calls_lt waiter hmem
    have htokens := hok.tokens_eq
    rw [hcall] at htokens
    dsimp only
    by_cases hready : waiter.ready = true
    · rw [if_pos hready]
      refine (h.remove call).ret _ hlt (notMem_removeWaiter h.nodup) (fun hne => ?_)
      rw [if_neg (fun hok => hne hok.2)] at htokens
      exact htokens
    · rw [if_neg hready]
      rw [if_neg (fun hok => hready hok.1)] at htokens
      cases hmicros : waiter.micros with
      | none => exact h
      | some micros =>
        dsimp only
        split
        · exact (h.remove call).ret _ hlt (notMem_removeWaiter h.nodup) (fun _ => htokens)
        · exact h

/-! ## Runs -/

/-- What a step has to meet: a signal fits. -/
def Fits (σ : KernelSemaPrivate) : Op → Prop
  | .signal signal_count => σ.SignalFits signal_count
  | _ => True

/-- Every step of a run fits. -/
def RunFits : KernelSemaPrivate → List Op → Prop
  | _, [] => True
  | σ, op :: ops => σ.Fits op ∧ RunFits (σ.step op) ops

theorem Inv.step (h : Inv σ) {op : Op} (hfits : σ.Fits op) : Inv (σ.step op) := by
  cases op with
  | wait need_count ptr_micros priority => exact h.wait need_count ptr_micros priority
  | poll need_count priority => exact h.wait need_count (some 0) priority
  | resume call elapsed => exact h.resume call elapsed
  | signal signal_count => exact h.signal hfits
  | cancel set_count => exact h.cancel set_count
  | delete => exact h.delete

theorem wakeLoop_of_neg (hcount : count < 0) (hneed : ∀ w ∈ waiters, 1 ≤ w.need_count) :
    (wakeLoop count history waiters).1 = count := by
  induction waiters with
  | nil => rfl
  | cons w rest ih =>
    unfold wakeLoop
    have hfirst := hneed w mem_cons_self
    rw [if_neg (by omega)]
    exact ih (fun v hv => hneed v (.tail _ hv))

theorem signal_of_not_fits (h : Inv σ) (hint : -2147483648 ≤ signal_count ∧ signal_count ≤ INT_MAX)
    (hfits : ¬ σ.SignalFits signal_count) : (σ.signal signal_count).2.m_count < 0 := by
  unfold SignalFits at hfits
  rw [not_or] at hfits
  obtain ⟨hdel, hsum⟩ := hfits
  have hcount := h.count_nonneg
  have hmax : σ.m_max_count ≤ 2147483647 := h.max_le
  have hle := h.count_le
  have hhi : signal_count ≤ 2147483647 := hint.2
  have hneg : addInt σ.m_count signal_count < 0 := by
    unfold addInt
    by_cases hlo : 0 ≤ σ.m_count + signal_count
    · -- the sum is above the largest `int` and wraps
      have hbig : ¬ σ.m_count + signal_count ≤ 2147483647 := fun hle => hsum ⟨hlo, hle⟩
      rw [Int.bmod_def]
      split <;> omega
    · rw [Int.bmod_eq_of_le (by omega) (by omega)]
      omega
  unfold signal
  rw [if_neg hdel, if_neg (by omega)]
  show (wakeLoop _ _ _).1 < 0
  rw [wakeLoop_of_neg hneg (fun w hw => (h.waiters w hw).need_pos)]
  exact hneg

/-- **The tokens of a semaphore.** In every state of a run the tokens are sound if and
only if every signal of the run fits: the semaphore is being deleted, or the sum of its
count and the signal is an `int` that is not negative. -/
theorem semaphore_tokens (fifo : Bool) {init_count max_count : ℤ} (h0 : 0 ≤ init_count)
    (hle : init_count ≤ max_count) (hmax : max_count ≤ INT_MAX) (ops : List Op)
    (hint : ∀ signal_count, Op.signal signal_count ∈ ops →
      -2147483648 ≤ signal_count ∧ signal_count ≤ INT_MAX) :
    (∀ ops', ops' <+: ops → Sound ((new fifo init_count max_count).run ops')) ↔
      (new fifo init_count max_count).RunFits ops := by
  suffices hall : ∀ σ : KernelSemaPrivate, Inv σ →
      ((∀ ops', ops' <+: ops → Sound (σ.run ops')) ↔ σ.RunFits ops) from
    hall _ (inv_new fifo h0 hle hmax)
  intro σ hinv
  induction ops generalizing σ with
  | nil =>
    refine ⟨fun _ => trivial, fun _ ops' hpre => ?_⟩
    rw [List.prefix_nil.mp hpre]
    exact hinv.sound
  | cons op ops ih =>
    have hint' : ∀ signal_count, Op.signal signal_count ∈ ops →
        -2147483648 ≤ signal_count ∧ signal_count ≤ INT_MAX :=
      fun c hc => hint c (.tail _ hc)
    constructor
    · intro hsound
      have hfits : σ.Fits op := by
        cases op with
        | signal signal_count =>
          by_contra hbad
          have hone : Sound (σ.run [.signal signal_count]) :=
            hsound _ ⟨ops, rfl⟩
          have hneg := signal_of_not_fits hinv (hint _ List.mem_cons_self) hbad
          exact absurd hone.count_nonneg (not_le.mpr hneg)
        | _ => trivial
      refine ⟨hfits, (ih hint' _ (hinv.step hfits)).mp ?_⟩
      intro ops' hpre
      exact hsound (op :: ops') (List.cons_prefix_cons.mpr ⟨rfl, hpre⟩)
    · intro hfits ops' hpre
      cases ops' with
      | nil => exact hinv.sound
      | cons op' ops' =>
        obtain ⟨rfl, hrest⟩ := List.cons_prefix_cons.mp hpre
        exact (ih hint' _ (hinv.step hfits.1)).mpr hfits.2 ops' hrest

/-- A thread that waits for two tokens gets them from two signals; the count is 0 again. -/
theorem semaphore_tokens_two_signals :
    let σ := (new true 0 2).run [.wait 2 none 700, .signal 1, .signal 1, .resume 0 5]
    Sound σ ∧ σ.m_count = 0 ∧
      σ.history = [.returned 0 .ok none, .handed 0 2, .signaled 1, .signaled 1] := by
  refine ⟨?_, by decide, by decide⟩
  refine (semaphore_tokens true (by decide) (by decide) (by decide) _ ?_).mpr ?_ _
    (List.prefix_refl _)
  · intro signal_count hmem
    have hone : signal_count = 1 := by simpa using hmem
    rw [hone]
    exact ⟨by decide, by decide⟩
  · exact ⟨trivial, Or.inr ⟨by decide, by decide⟩, Or.inr ⟨by decide, by decide⟩, trivial, trivial⟩

/-- One signal of `-1`, which the entry point passes on: the count is negative. -/
theorem semaphore_negative_signal :
    ((new true 0 1).signal (-1)).1 = .ok ∧ ¬ Sound ((new true 0 1).run [.signal (-1)]) := by
  refine ⟨by decide, fun h => ?_⟩
  exact nomatch h.count_nonneg

end KernelSemaPrivate

end MagnusPS5.Kernel.KernelSema
