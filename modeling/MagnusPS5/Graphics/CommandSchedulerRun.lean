/-
Deferred operations and recycled command buffers over all interleavings.

The queues keep their order because every operation is queued under the tick that is
current, and the ticks only grow. That a buffer is not recorded while the device may still
use it is an invariant of what the GPU thread has left to do (`Ready`): between a
submission and the next recording there always is a wait for the fence.
-/
import MagnusPS5.Graphics.CommandScheduler
import Mathlib.Data.List.GetD
import Mathlib.Order.Defs.LinearOrder

namespace MagnusPS5.Graphics.CommandScheduler

/-- The buffer is complete; or `FinishCurrent` begins it, and it was submitted once more since
this call has waited for it. -/
def HandedOut.Recycled (h : HandedOut) : Prop :=
  h.submitted ≤ h.completed ∨ ∃ tick, h.finished = some tick ∧ tick < h.submitted

namespace Scheduler

open Scheduler List Nat OperationState

variable {Ω : Type}

/-! ## What the GPU thread has left to do -/

/-- The instructions record a buffer, run deferred operations or make calls only where the
current buffer is complete, and `FinishCurrent` has waited for the tick of the buffer that it
begins; `complete` says that the current buffer is complete now, and `done` that ticks are. -/
def Ready (done : ℕ) : Prop → List (Instr Ω) → Prop
  | complete, [] => complete
  | complete, .beginRecording :: rest => complete ∧ Ready done complete rest
  | complete, .beginSubmitted _ tick :: rest => tick ≤ done ∧ Ready done complete rest
  | complete, .popLoop :: rest => complete ∧ Ready done complete rest
  | complete, .api _ _ :: rest => complete ∧ Ready done complete rest
  | _, .submitCurrent :: rest => Ready done False rest
  | _, .fenceWait :: rest => Ready done True rest
  | _, .finishWait :: rest => Ready done True rest
  | _, .fenceWaitAll :: rest => Ready done True rest
  | _, .beginNext :: rest => Ready done True rest
  | _, .beginNextRefreshed :: rest => Ready done True rest
  | complete, .masterWait _ :: rest => Ready done complete rest
  | complete, .refresh :: rest => Ready done complete rest
  | complete, .close :: rest => Ready done complete rest

variable {todo rest : List (Instr Ω)} {σ' : Scheduler Ω} {done done' : ℕ}
  {c : Prop} {gpu_tick i : ℕ}

theorem Ready.mono {c' : Prop} (hdone : done ≤ done') (hc : c → c') (h : Ready done c todo) :
    Ready done' c' todo := by
  induction todo generalizing c c' with
  | nil => exact hc h
  | cons instr rest ih =>
    cases instr with
    | beginRecording | popLoop | api => exact ⟨hc h.1, ih hc h.2⟩
    | beginSubmitted => exact ⟨Nat.le_trans h.1 hdone, ih hc h.2⟩
    | submitCurrent | fenceWait | finishWait | fenceWaitAll | beginNext | beginNextRefreshed =>
      exact ih id h
    | masterWait | refresh | close => exact @ih c c' hc h

theorem Ready.of_true (hc : c) (h : Ready done True todo) : Ready done c todo :=
  h.mono (Nat.le_refl _) (fun _ => hc)

theorem Ready.calls (hc : c) (inCallback : Bool) (calls : List (Api Ω)) (h : Ready done c rest) :
    Ready done c (calls.map (.api inCallback) ++ rest) := by
  induction calls with
  | nil => exact h
  | cons call calls ih => exact ⟨hc, ih⟩

theorem ready_popPending (refresh_gpu_tick : Bool) {rest : List (Instr Ω)}
    (hc : c) (h : Ready done c rest) : Ready done c (popPending refresh_gpu_tick ++ rest) := by
  cases refresh_gpu_tick <;> exact ⟨hc, h⟩

/-! ## Reusable buffers -/

theorem findLoop_spec {m_buffer_ticks : List ℕ} {current left : ℕ}
    (h : findLoop m_buffer_ticks gpu_tick current left = some i) :
    m_buffer_ticks.getD i 0 ≤ gpu_tick ∧ (0 < m_buffer_ticks.length → i < m_buffer_ticks.length) := by
  induction left with
  | zero => cases h
  | succ left ih =>
    unfold findLoop at h
    dsimp only at h
    split at h
    next hfree =>
      cases h
      exact ⟨hfree, fun hpos => mod_lt _ hpos⟩
    · exact ih h

theorem findReusableBuffer_spec {σ : Scheduler Ω} (h : σ.findReusableBuffer gpu_tick = some i) :
    i < σ.m_buffer_ticks.length ∧ σ.m_buffer_ticks.getD i 0 ≤ gpu_tick := by
  unfold findReusableBuffer at h
  by_cases hpos : 0 < σ.m_buffer_ticks.length
  · obtain ⟨hle, hlt⟩ := findLoop_spec h
    exact ⟨hlt hpos, hle⟩
  · have hzero : σ.m_buffer_ticks.length = 0 := by omega
    rw [hzero] at h
    cases h

/-! ## The invariant -/

/-- The operation of the priority thread, while it has not been run. -/
def waiting (active : Option (PendingOperation Ω × Bool)) : List (PendingOperation Ω) :=
  match active with
  | some (operation, false) => [operation]
  | _ => []

/-- What the calls that found the scheduler open have deferred is what was queued, and what the
others have deferred was run without a queue, and while the scheduler drains in a callback. -/
structure Served (deferred priorityDeferred : List (PendingOperation Ω)) (inlineRan : List Ω)
    (served : List (Deferral Ω)) : Prop where
  queued : deferred.map PendingOperation.callback =
    (served.filter fun d => d.state = .opened ∧ d.priority = false).map Deferral.operation
  priority_queued : priorityDeferred.map PendingOperation.callback =
    (served.filter fun d => d.state = .opened ∧ d.priority = true).map Deferral.operation
  inline : inlineRan = (served.filter fun d => d.state ≠ .opened).map Deferral.operation
  waits : ∀ d ∈ served, d.state = .draining → d.inCallback = true

structure Inv (σ : Scheduler Ω) : Prop where
  gpu_le : σ.gpuTick ≤ σ.completed
  completed_lt : σ.completed < σ.currentTick
  current_lt : ∀ i, σ.m_current = some i → i < σ.m_buffer_ticks.length
  queue : σ.deferred = σ.ran.map Ran.operation ++ σ.m_pending_operations
  priority_queue : σ.priorityDeferred = σ.priorityRan.map Ran.operation ++
    (waiting σ.m_priority_active ++ σ.m_priority_operations)
  sorted : σ.m_pending_operations.Pairwise (fun a b => a.tick ≤ b.tick)
  tick_le : ∀ operation ∈ σ.m_pending_operations, operation.tick ≤ σ.currentTick
  ran : ∀ r ∈ σ.ran, r.operation.tick ≤ r.completed
  priority_ran : ∀ r ∈ σ.priorityRan, r.operation.tick ≤ r.completed
  handed : ∀ h ∈ σ.handedOut, h.Recycled
  served : Served σ.deferred σ.priorityDeferred σ.inlineRan σ.served
  closed : σ.m_operation_state = .closed →
    σ.m_pending_operations = [] ∧ σ.m_priority_operations = [] ∧ σ.m_priority_active = none
  ready : Ready σ.completed (σ.submittedTick ≤ σ.completed) σ.todo

theorem inv_new : Inv (new : Scheduler Ω) where
  gpu_le := Nat.le_refl 0
  completed_lt := Nat.zero_lt_one
  current_lt := fun _ h => by cases h
  queue := rfl
  priority_queue := rfl
  sorted := .nil
  tick_le := nofun
  ran := nofun
  priority_ran := nofun
  handed := nofun
  served := ⟨rfl, rfl, rfl, nofun⟩
  closed := nofun
  ready := Nat.le_refl 0

variable {σ : Scheduler Ω}

theorem Inv.goto (h : Inv σ)
    (hready : Ready σ.completed (σ.submittedTick ≤ σ.completed) todo) : Inv { σ with todo := todo } :=
  { h with ready := hready }

theorem Inv.refresh (h : Inv σ) : Inv σ.refresh :=
  { h with gpu_le := Nat.max_le.mpr ⟨h.gpu_le, Nat.le_refl _⟩ }

theorem Inv.masterWait (h : Inv σ) (tick : ℕ) : Inv (σ.masterWait tick) := by
  unfold Scheduler.masterWait
  split
  · exact h
  · exact h.refresh

/-! ## Command buffers -/

theorem submittedTick_none (hc : σ.m_current = none) : σ.submittedTick = 0 := by
  unfold submittedTick
  rw [hc]

theorem submittedTick_some (hc : σ.m_current = some i) :
    σ.submittedTick = σ.m_buffer_ticks.getD i 0 := by
  unfold submittedTick
  rw [hc]

theorem Inv.select (h : Inv σ) (hlt : i < σ.m_buffer_ticks.length)
    (hfree : σ.m_buffer_ticks.getD i 0 ≤ σ.completed)
    (hready : Ready σ.completed True todo) : Inv { σ.select i with todo := todo } :=
  { h with
    current_lt := fun j hj => by
      cases hj
      exact hlt
    handed := fun r hr => by
      obtain rfl | hr := mem_cons.mp hr
      · exact .inl hfree
      · exact h.handed r hr
    ready := hready.of_true hfree }

theorem Inv.grow (h : Inv σ) :
    Inv σ.growCommandBuffers.2 ∧
      σ.growCommandBuffers.1 < σ.growCommandBuffers.2.m_buffer_ticks.length ∧
      σ.growCommandBuffers.2.m_buffer_ticks.getD σ.growCommandBuffers.1 0 = 0 := by
  have hlen : (σ.m_buffer_ticks ++ replicate CommandBufferGrowStep 0).length
      = σ.m_buffer_ticks.length + 4 := by
    rw [length_append, length_replicate]
  refine ⟨?_, ?_, ?_⟩
  · refine
      { h with
        current_lt := fun i hi => ?_
        ready := ?_ }
    · show i < (σ.m_buffer_ticks ++ replicate CommandBufferGrowStep 0).length
      have hlt := h.current_lt i hi
      omega
    · apply h.ready.mono (Nat.le_refl _)
      intro hle
      cases hc : σ.m_current with
      | none =>
        have hc' : σ.growCommandBuffers.2.m_current = none := hc
        rw [submittedTick_none hc']
        exact zero_le _
      | some i =>
        have hc' : σ.growCommandBuffers.2.m_current = some i := hc
        rw [submittedTick_some hc] at hle
        rw [submittedTick_some hc']
        show (σ.m_buffer_ticks ++ replicate CommandBufferGrowStep 0).getD i 0 ≤ _
        rw [getD_append _ _ _ _ (h.current_lt i hc)]
        exact hle
  · show σ.m_buffer_ticks.length < _
    rw [show σ.growCommandBuffers.2.m_buffer_ticks.length = _ from hlen]
    omega
  · show (σ.m_buffer_ticks ++ replicate CommandBufferGrowStep 0).getD σ.m_buffer_ticks.length 0 = 0
    rw [getD_append_right _ _ _ _ (Nat.le_refl _), Nat.sub_self]
    rfl

theorem Inv.beginRecording (h : Inv σ) (hfree : σ.submittedTick ≤ σ.completed)
    (hready : Ready σ.completed (σ.submittedTick ≤ σ.completed) todo) :
    Inv { σ.beginRecording with todo := todo } :=
  { h with
    handed := fun r hr => by
      obtain rfl | hr := mem_cons.mp hr
      · exact .inl hfree
      · exact h.handed r hr
    ready := hready }

/-- `FinishCurrent` begins the buffer whose tick it has waited for. -/
theorem Inv.beginSubmitted (h : Inv σ) {buffer tick : ℕ} (hwaited : tick ≤ σ.completed)
    (hready : Ready σ.completed (σ.submittedTick ≤ σ.completed) todo) :
    Inv { σ.beginSubmitted buffer tick with todo := todo } :=
  { h with
    handed := fun r hr => by
      obtain rfl | hr := mem_cons.mp hr
      · by_cases hagain : tick < σ.m_buffer_ticks.getD buffer 0
        · exact .inr ⟨tick, rfl, hagain⟩
        · exact .inl (Nat.le_trans (Nat.not_lt.mp hagain) hwaited)
      · exact h.handed r hr
    ready := hready }

theorem Inv.submitCurrent (h : Inv σ) (hready : Ready σ.completed False rest)
    (hstep : σ.submitCurrent = some σ') : Inv { σ' with todo := rest } := by
  unfold Scheduler.submitCurrent at hstep
  split at hstep
  · cases hstep
    have hlt := h.completed_lt
    exact
      { h with
        completed_lt := lt_succ_of_lt hlt
        current_lt := fun j hj => by
          rw [length_set]
          exact h.current_lt j hj
        tick_le := fun operation ho => le_succ_of_le (h.tick_le operation ho)
        ready := hready.mono (Nat.le_refl _) False.elim }
  · cases hstep

/-! ## Deferred operations -/

theorem Inv.runOperation (C : Callbacks Ω) (h : Inv σ) (operation : Ω)
    (hfree : σ.submittedTick ≤ σ.completed)
    (hready : Ready σ.completed (σ.submittedTick ≤ σ.completed) rest) :
    Inv (runOperation C σ operation rest) :=
  h.goto (.calls hfree true (C.calls operation) hready)

section

variable (h : Inv σ) (hopen : σ.m_operation_state = .opened) (inCallback : Bool) (operation : Ω)

include h hopen inCallback operation

theorem Inv.push : Inv (σ.push inCallback operation) :=
  { h with
    queue := by
      show σ.deferred ++ _ = σ.ran.map _ ++ (σ.m_pending_operations ++ _)
      rw [h.queue, append_assoc]
    sorted := by
      refine pairwise_append.mpr ⟨h.sorted, pairwise_singleton _ _, ?_⟩
      intro a ha b hb
      rw [mem_singleton.mp hb]
      exact h.tick_le a ha
    tick_le := fun a ha => by
      obtain ha | ha := mem_append.mp ha
      · exact h.tick_le a ha
      · obtain rfl := mem_singleton.mp ha
        exact Nat.le_refl _
    served := by
      obtain ⟨hqueued, hpriority, hinline, hwaits⟩ := h.served
      refine ⟨?_, ?_, ?_, fun d hd hstate => ?_⟩
      · simp [Scheduler.push, hqueued, hopen]
      · simp [Scheduler.push, hpriority, hopen]
      · simp [Scheduler.push, hinline, hopen]
      · obtain hd | hd := mem_append.mp hd
        · exact hwaits d hd hstate
        · obtain rfl := mem_singleton.mp hd
          exact noConfusion (hopen.symm.trans hstate)
    closed := fun hclosed => noConfusion (hopen.symm.trans hclosed) }

theorem Inv.pushPriority : Inv (σ.pushPriority inCallback operation) :=
  { h with
    priority_queue := by
      show σ.priorityDeferred ++ _ =
        σ.priorityRan.map _ ++ (waiting σ.m_priority_active ++ (σ.m_priority_operations ++ _))
      rw [h.priority_queue, append_assoc, append_assoc]
    served := by
      obtain ⟨hqueued, hpriority, hinline, hwaits⟩ := h.served
      refine ⟨?_, ?_, ?_, fun d hd hstate => ?_⟩
      · simp [Scheduler.pushPriority, hqueued, hopen]
      · simp [Scheduler.pushPriority, hpriority, hopen]
      · simp [Scheduler.pushPriority, hinline, hopen]
      · obtain hd | hd := mem_append.mp hd
        · exact hwaits d hd hstate
        · obtain rfl := mem_singleton.mp hd
          exact noConfusion (hopen.symm.trans hstate)
    closed := fun hclosed => noConfusion (hopen.symm.trans hclosed) }

end

/-- An operation is run without a queue where the scheduler is not open, and from outside of a
callback only where it is closed. -/
theorem Inv.runInline (h : Inv σ) (hopen : σ.m_operation_state ≠ .opened) {inCallback : Bool}
    (hwait : σ.m_operation_state = .draining → inCallback = true) (priority : Bool)
    (operation : Ω) : Inv (σ.runInline priority inCallback operation) :=
  { h with
    served := by
      obtain ⟨hqueued, hpriority, hinline, hwaits⟩ := h.served
      refine ⟨?_, ?_, ?_, fun d hd hstate => ?_⟩
      · simp [Scheduler.runInline, hqueued, hopen]
      · simp [Scheduler.runInline, hpriority, hopen]
      · simp [Scheduler.runInline, hinline, hopen]
      · obtain hd | hd := mem_append.mp hd
        · exact hwaits d hd hstate
        · obtain rfl := mem_singleton.mp hd
          exact hwait hstate }

/-- Where an operation is run without a queue, the scheduler drains in a callback only. -/
theorem callback_of_draining {inCallback : Prop} (h : inCallback ∨ σ.m_operation_state = .closed)
    (hstate : σ.m_operation_state = .draining) : inCallback :=
  h.resolve_right fun hclosed => noConfusion (hstate.symm.trans hclosed)

section

variable (C : Callbacks Ω) (h : Inv σ) (inCallback : Bool) (operation : Ω)
  (hfree : σ.submittedTick ≤ σ.completed)
  (hready : Ready σ.completed (σ.submittedTick ≤ σ.completed) rest)

include C h inCallback operation hfree hready

theorem Inv.deferOperation : Inv (deferOperation C σ inCallback operation rest) := by
  unfold Scheduler.deferOperation
  split
  next hopen =>
    exact (h.push hopen inCallback operation).goto hready
  next hopen =>
    split
    next hrun =>
      have hran := h.runInline hopen (callback_of_draining hrun) false operation
      exact hran.runOperation C operation hfree hready
    · exact h

theorem Inv.deferPriorityOperation :
    Inv (deferPriorityOperation C σ inCallback operation rest) := by
  unfold Scheduler.deferPriorityOperation
  split
  next hopen =>
    exact (h.pushPriority hopen inCallback operation).goto hready
  next hopen =>
    split
    next hrun =>
      have hran := h.runInline hopen (callback_of_draining hrun) true operation
      exact hran.runOperation C operation hfree hready
    · exact h

end

theorem Inv.deferFrom (h : Inv σ) (operation : Ω) : Inv (σ.deferFrom operation) := by
  unfold Scheduler.deferFrom
  split
  next hopen => exact h.push hopen false operation
  · exact h
  next hclosed =>
    exact h.runInline (by simp [hclosed]) (by simp [hclosed]) false operation

theorem Inv.deferPriorityFrom (h : Inv σ) (operation : Ω) :
    Inv (σ.deferPriorityFrom operation) := by
  unfold Scheduler.deferPriorityFrom
  split
  next hopen => exact h.pushPriority hopen false operation
  · exact h
  next hclosed =>
    exact h.runInline (by simp [hclosed]) (by simp [hclosed]) true operation

theorem Inv.deferInPriority (h : Inv σ) (operations : List Ω) :
    Inv (operations.foldl deferInPriority σ) := by
  induction operations generalizing σ with
  | nil => exact h
  | cons operation operations ih =>
    apply ih
    unfold Scheduler.deferInPriority
    split
    next hopen => exact h.push hopen true operation
    next hopen => exact h.runInline hopen (fun _ => rfl) false operation

section

variable (C : Callbacks Ω) (h : Inv σ)

include C h

/-- **One round of PopPendingOperations** takes the front of the queue, whose tick is
complete, and runs it. -/
theorem Inv.popRound (hfree : σ.submittedTick ≤ σ.completed)
    (hready : Ready σ.completed (σ.submittedTick ≤ σ.completed) rest) : Inv (popRound C σ rest) := by
  unfold Scheduler.popRound
  split
  · exact h.goto hready
  next operation operations hqueue =>
    split
    · exact h.goto hready
    next htick =>
      have hsorted := h.sorted
      rw [hqueue, pairwise_cons] at hsorted
      have hpopped : Inv
          { σ with
            m_pending_operations := operations
            ran := σ.ran ++ [⟨operation, σ.completed⟩] } :=
        { h with
          queue := by
            show σ.deferred = (σ.ran ++ [_]).map Ran.operation ++ operations
            rw [h.queue, hqueue, map_append, append_assoc]
            rfl
          sorted := hsorted.2
          tick_le := fun a ha => h.tick_le a (hqueue ▸ .tail _ ha)
          ran := fun r hr => by
            obtain hr | hr := mem_append.mp hr
            · exact h.ran r hr
            · rw [mem_singleton.mp hr]
              exact Nat.le_trans (Nat.not_lt.mp htick) h.gpu_le
          closed := fun hclosed => by
            have hnil := (h.closed hclosed).1
            rw [hqueue] at hnil
            cases hnil }
      exact hpopped.runOperation C operation.callback hfree ⟨hfree, hready⟩

/-! ## The GPU thread -/

/-- **A call of the scheduler** comes where the current buffer is complete. -/
theorem Inv.call (inCallback : Bool) (hfree : σ.submittedTick ≤ σ.completed)
    (hready : Ready σ.completed (σ.submittedTick ≤ σ.completed) rest) {api : Api Ω}
    (hstep : call C σ inCallback rest api = some σ') : Inv σ' := by
  have htrue : Ready σ.completed True rest := hready.mono (Nat.le_refl _) (fun _ => trivial)
  unfold Scheduler.call at hstep
  cases api with dsimp only at hstep
  | begin =>
    split at hstep
    · cases hstep
    · by_cases hc : σ.m_current = none
      · -- the first buffers
        obtain ⟨hgrow, hlt, hzero⟩ := h.grow
        rw [if_pos hc] at hstep
        have hsel : σ.growCommandBuffers.2.m_buffer_ticks.getD σ.growCommandBuffers.1 0
            ≤ σ.growCommandBuffers.2.completed := by
          rw [hzero]
          exact zero_le _
        have hselect := hgrow.select hlt hsel htrue
        split at hstep
        · cases hstep
          exact hselect
        · cases hstep
          exact hselect.beginRecording hsel (htrue.of_true hsel)
      · rw [if_neg hc] at hstep
        split at hstep
        · cases hstep
          exact h.goto hready
        · cases hstep
          exact h.beginRecording hfree hready
  | flush =>
    cases hstep
    exact h.goto htrue
  | finish =>
    split at hstep
    · cases hstep
    · have htail : ∀ c, Ready σ.completed c (.fenceWaitAll :: .masterWait σ.currentTick ::
          (popPending true ++ .beginRecording :: rest)) :=
        fun _ => @ready_popPending _ σ.completed True true _ trivial ⟨trivial, htrue⟩
      cases hstep
      apply h.goto
      cases σ.m_recording with
      | true => exact htail False
      | false => exact htail _
  | finishCurrent =>
    cases hstep
    exact h.goto htrue
  | wait tick =>
    split at hstep
    · cases hstep
    · split at hstep
      · cases hstep
        exact h.goto ⟨hfree, hready⟩
      · cases hstep
        exact h.goto (ready_popPending true hfree hready)
  | popPendingOperations =>
    cases hstep
    exact h.goto (ready_popPending true hfree hready)
  | isFree tick =>
    split at hstep
    · cases hstep
      exact h.goto hready
    · cases hstep
      exact h.goto hready
  | waitPriorityOperations tick =>
    split at hstep
    · cases hstep
    · split at hstep
      · cases hstep
        exact h
      · cases hstep
        exact h.goto hready
  | drainPriorityOperations =>
    split at hstep
    · cases hstep
    · split at hstep
      · cases hstep
        exact h.goto hready
      · cases hstep
        exact h
  | deferOperation operation =>
    split at hstep
    · cases hstep
    · cases hstep
      exact h.deferOperation C inCallback operation hfree hready
  | deferPriorityOperation operation =>
    split at hstep
    · cases hstep
    · cases hstep
      exact h.deferPriorityOperation C inCallback operation hfree hready
  | shutdown =>
    split at hstep
    · cases hstep
      exact h.goto hready
    · cases hstep
    · cases hstep
      exact h.goto hready
    · cases hstep
      exact h
    · cases hstep
      have hclose : Ready σ.completed (σ.submittedTick ≤ σ.completed)
          (.api false .drainPriorityOperations :: .close :: rest) := ⟨hfree, hready⟩
      have hdraining : Inv { σ with m_operation_state := .draining } :=
        { h with closed := fun hc => by cases hc }
      apply hdraining.goto
      split
      · exact ⟨hfree, hclose⟩
      · exact hclose

/-- **One instruction of the GPU thread keeps the invariant.** -/
theorem Inv.execute (hstep : execute C σ = some σ') : Inv σ' := by
  have hready := h.ready
  unfold Scheduler.execute at hstep
  split at hstep
  · cases hstep
    exact h
  next inCallback api rest htodo =>
    rw [htodo] at hready
    exact h.call C inCallback hready.1 hready.2 hstep
  next rest htodo =>
    rw [htodo] at hready
    obtain ⟨σ'', hsubmit, rfl⟩ := Option.map_eq_some_iff.mp hstep
    exact h.submitCurrent hready hsubmit
  next rest htodo =>
    rw [htodo] at hready
    split at hstep
    · cases hstep
    · split at hstep
      next i hfind =>
        cases hstep
        obtain ⟨hlt, hle⟩ := findReusableBuffer_spec hfind
        exact h.select hlt (Nat.le_trans hle h.gpu_le)
          (@ready_popPending _ σ.completed True true _ trivial ⟨trivial, hready⟩)
      · cases hstep
        exact h.goto hready
  next rest htodo =>
    rw [htodo] at hready
    have htail : Ready σ.completed True (.fenceWait :: (popPending false ++ .beginRecording :: rest)) :=
      @ready_popPending _ σ.completed True false _ trivial ⟨trivial, hready⟩
    cases hfind : σ.findReusableBuffer σ.gpuTick with
    | some i =>
      simp only [hfind] at hstep
      cases hstep
      obtain ⟨hlt, hle⟩ := findReusableBuffer_spec hfind
      exact h.select hlt (Nat.le_trans hle h.gpu_le) htail
    | none =>
      simp only [hfind] at hstep
      cases hstep
      obtain ⟨hgrow, hlt, hzero⟩ := h.grow
      exact hgrow.select hlt (by rw [hzero]; exact zero_le _) htail
  next rest htodo =>
    rw [htodo] at hready
    split at hstep
    next hfree =>
      cases hstep
      exact h.goto (.of_true hfree hready)
    · cases hstep
      exact h
  next rest htodo =>
    rw [htodo] at hready
    split at hstep
    next hfree =>
      cases hstep
      have hrest : Ready σ.completed (σ.submittedTick ≤ σ.completed) rest := .of_true hfree hready
      exact h.goto (ready_popPending true hfree ⟨hfree, hrest⟩)
    · cases hstep
      exact h
  next rest htodo =>
    rw [htodo] at hready
    split at hstep
    next hall =>
      cases hstep
      refine h.goto (.of_true ?_ hready)
      -- the fence of the current buffer is one of them
      cases hc : σ.m_current with
      | none =>
        rw [submittedTick_none hc]
        exact zero_le _
      | some i =>
        rw [submittedTick_some hc, getD_eq_getElem _ _ (h.current_lt i hc)]
        exact hall _ (getElem_mem _)
    · cases hstep
      exact h
  next tick rest htodo =>
    rw [htodo] at hready
    split at hstep
    · cases hstep
      apply (h.masterWait tick).goto
      unfold Scheduler.masterWait
      split <;> exact hready
    · cases hstep
      exact h
  next rest htodo =>
    rw [htodo] at hready
    cases hstep
    exact h.refresh.goto hready
  next rest htodo =>
    rw [htodo] at hready
    cases hstep
    exact h.popRound C hready.1 hready.2
  next rest htodo =>
    rw [htodo] at hready
    split at hstep
    · cases hstep
    · cases hstep
      exact h.beginRecording hready.1 hready.2
  next buffer tick rest htodo =>
    rw [htodo] at hready
    cases hstep
    exact h.beginSubmitted hready.1 hready.2
  next rest htodo =>
    rw [htodo] at hready
    split at hstep
    next hnone =>
      cases hstep
      exact { h with
        closed := fun _ => hnone
        ready := hready }
    · cases hstep

/-! ## Steps -/

theorem Inv.step {op : Op Ω} (hstep : step C σ op = some σ') : Inv σ' := by
  unfold Scheduler.step at hstep
  cases op with dsimp only at hstep
  | call api =>
    split at hstep
    next hnil =>
      cases hstep
      have hfree : σ.submittedTick ≤ σ.completed := by
        have hready := h.ready
        rw [hnil] at hready
        exact hready
      exact h.goto ⟨hfree, hfree⟩
    · cases hstep
      exact h
  | execute => exact h.execute C hstep
  | complete tick =>
    split at hstep
    next hlt =>
      cases hstep
      exact
        { h with
          gpu_le := Nat.le_trans h.gpu_le (Nat.le_max_left _ _)
          completed_lt := Nat.max_lt.mpr ⟨h.completed_lt, hlt⟩
          ready := h.ready.mono (Nat.le_max_left _ _)
            (fun hle => Nat.le_trans hle (Nat.le_max_left _ _)) }
    · cases hstep
      exact h
  | deferOperation operation =>
    split at hstep
    · cases hstep
    · cases hstep
      exact h.deferFrom operation
  | deferPriorityOperation operation =>
    split at hstep
    · cases hstep
    · cases hstep
      exact h.deferPriorityFrom operation
  | priorityPop =>
    split at hstep
    next operation operations hactive hqueue =>
      cases hstep
      exact
        { h with
          priority_queue := by
            have hold := h.priority_queue
            rw [hactive, hqueue] at hold
            exact hold
          closed := fun hclosed => by
            have hnil := (h.closed hclosed).2.1
            rw [hqueue] at hnil
            cases hnil }
    · cases hstep
      exact h
  | priorityRun =>
    split at hstep
    next operation hactive =>
      split at hstep
      next htick =>
        cases hstep
        apply Inv.deferInPriority
        have hwait := h.masterWait operation.tick
        have hframe : (σ.masterWait operation.tick).priorityRan = σ.priorityRan ∧
            (σ.masterWait operation.tick).m_operation_state = σ.m_operation_state := by
          unfold Scheduler.masterWait
          split <;> exact ⟨rfl, rfl⟩
        have hactive' : (σ.masterWait operation.tick).m_priority_active
            = some (operation, false) := by
          unfold Scheduler.masterWait
          split <;> exact hactive
        exact
          { hwait with
            priority_queue := by
              have hold := hwait.priority_queue
              rw [hactive', hframe.1] at hold
              show (σ.masterWait operation.tick).priorityDeferred
                = (σ.priorityRan ++ [_]).map Ran.operation ++ ([] ++ _)
              rw [hold, map_append, append_assoc]
              rfl
            priority_ran := fun r hr => by
              obtain hr | hr := mem_append.mp hr
              · exact h.priority_ran r hr
              · rw [mem_singleton.mp hr]
                exact htick
            closed := fun hclosed => by
              have hstate : σ.m_operation_state = .closed := hframe.2.symm.trans hclosed
              have hnone := (h.closed hstate).2.2
              rw [hactive] at hnone
              cases hnone }
      · cases hstep
        exact h
    · cases hstep
      exact h
  | priorityDone =>
    split at hstep
    next operation hactive =>
      cases hstep
      exact
        { h with
          priority_queue := by
            have hold := h.priority_queue
            rw [hactive] at hold
            exact hold
          closed := fun hclosed => by
            have hnone := (h.closed hclosed).2.2
            rw [hactive] at hnone
            cases hnone }
    · cases hstep
      exact h

end

variable {C : Callbacks Ω}

theorem inv_reachable (h : Reachable C σ) : Inv σ := by
  induction h with
  | new => exact inv_new
  | step _ op hstep ih => exact ih.step C hstep

/-! ## The result -/

/-- **What holds in every state.** What was queued is what was run, in this order, followed
by what still waits; everything was run after its tick was complete; a closed scheduler
has run everything; a buffer is handed out when its last tick is complete, but for one that
`FinishCurrent` begins and that was submitted once more; and what is deferred once shutdown has
begun is run without a queue, by a callback at once and otherwise when the scheduler is closed. -/
structure Sound (σ : Scheduler Ω) : Prop where
  once : σ.deferred = σ.ran.map Ran.operation ++ σ.m_pending_operations
  priority_once : σ.priorityDeferred = σ.priorityRan.map Ran.operation ++
    (waiting σ.m_priority_active ++ σ.m_priority_operations)
  after_tick : ∀ r ∈ σ.ran, r.operation.tick ≤ r.completed
  priority_after_tick : ∀ r ∈ σ.priorityRan, r.operation.tick ≤ r.completed
  drained : σ.m_operation_state = .closed →
    σ.deferred = σ.ran.map Ran.operation ∧ σ.priorityDeferred = σ.priorityRan.map Ran.operation
  handed : ∀ h ∈ σ.handedOut, h.Recycled
  served : Served σ.deferred σ.priorityDeferred σ.inlineRan σ.served
  /-- The loop of `PopPendingOperations` goes on as long as an operation is free. -/
  pops : ∀ (C : Callbacks Ω) rest, (popRound C σ rest).todo = rest →
    ∀ operation ∈ σ.m_pending_operations, σ.gpuTick < operation.tick

theorem popRound_stops (hsorted : σ.m_pending_operations.Pairwise (fun a b => a.tick ≤ b.tick))
    (hstop : (popRound C σ rest).todo = rest) :
    ∀ operation ∈ σ.m_pending_operations, σ.gpuTick < operation.tick := by
  unfold popRound at hstop
  split at hstop
  next hnil =>
    intro operation ho
    rw [hnil] at ho
    nomatch ho
  next operation operations hqueue =>
    split at hstop
    next htick =>
      rw [hqueue, pairwise_cons] at hsorted
      intro a ha
      rw [hqueue] at ha
      obtain rfl | ha := mem_cons.mp ha
      · exact htick
      · exact Nat.lt_of_lt_of_le htick (hsorted.1 a ha)
    · -- an operation that is run leaves more to do than before
      exfalso
      have hlen := congrArg length hstop
      have hlen' : ((C.calls operation.callback).map (Instr.api true) ++
          Instr.popLoop :: rest).length = rest.length := hlen
      rw [length_append, length_cons] at hlen'
      omega

theorem Inv.sound (h : Inv σ) : Sound σ where
  once := h.queue
  priority_once := h.priority_queue
  after_tick := h.ran
  priority_after_tick := h.priority_ran
  drained hclosed := by
    obtain ⟨hpending, hpriority, hactive⟩ := h.closed hclosed
    have hqueue := h.queue
    have hpqueue := h.priority_queue
    rw [hpending, append_nil] at hqueue
    rw [hactive, hpriority] at hpqueue
    exact ⟨hqueue, hpqueue.trans (append_nil _)⟩
  handed := h.handed
  served := h.served
  pops _ _ hstop := popRound_stops h.sorted hstop

/-- **Deferral and recycling** are sound in every reachable state. -/
theorem commandScheduler_sound {C : Callbacks Ω} (h : Reachable C σ) : Sound σ :=
  (inv_reachable h).sound

/-! ## Runs -/

/-- The state after a run, as long as nothing stops the process. -/
def run (C : Callbacks Ω) (σ : Scheduler Ω) : List (Op Ω) → Option (Scheduler Ω)
  | [] => some σ
  | op :: ops => (step C σ op).bind (fun σ => run C σ ops)

theorem Reachable.run (h : Reachable C σ) {ops : List (Op Ω)}
    (hrun : run C σ ops = some σ') : Reachable C σ' := by
  induction ops generalizing σ with
  | nil =>
    cases hrun
    exact h
  | cons op ops ih =>
    obtain ⟨σ'', hstep, hrest⟩ := Option.bind_eq_some_iff.mp hrun
    exact ih (h.step op hstep) hrest

/-- Operation 0 defers operation 1, operation 4 begins and submits, and the others do nothing. -/
def chained : Callbacks ℕ where
  calls operation :=
    if operation = 0 then [.deferOperation 1] else if operation = 4 then [.begin, .flush] else []
  priorityDefers _ := []

/-- The GPU thread defers operation 0, submits, and takes its steps while the device
completes the tick. -/
def chainedOps : List (Op ℕ) :=
  [.call .begin, .execute, .call (.deferOperation 0), .execute, .call .flush, .execute,
    .execute, .execute, .complete 1] ++ List.replicate 12 .execute

/-- Operation 0 is run when its tick is complete, and operation 1, which it defers, waits
for the next tick. -/
theorem commandScheduler_sound_chained :
    ∃ σ, run chained new chainedOps = some σ ∧ Sound σ ∧
      (σ.ran, σ.m_pending_operations) = ([⟨⟨0, 1⟩, 1⟩], [⟨1, 2⟩]) := by
  have hresult : (run chained new chainedOps).map (fun σ => (σ.ran, σ.m_pending_operations))
      = some ([⟨⟨0, 1⟩, 1⟩], [⟨1, 2⟩]) := by decide +kernel
  obtain ⟨σ, hrun, heq⟩ := Option.map_eq_some_iff.mp hresult
  exact ⟨σ, hrun, commandScheduler_sound (Reachable.new.run hrun), heq⟩

/-- A priority operation overtakes an operation that was deferred before it; while the scheduler
shuts down, operation 1, which operation 0 defers, is run before operation 2, which has been
waiting, and under a tick that is not complete; and `FinishCurrent` begins buffer 0 again, which
operation 4 has submitted under tick 2, while tick 1 is the last that is complete. -/
theorem commandScheduler_overtakes :
    (run chained new
        [.call .begin, .execute, .call (.deferOperation 2), .execute,
          .call (.deferPriorityOperation 3), .execute, .call .flush, .execute, .execute,
          .complete 1, .priorityPop, .priorityRun]).map
        (fun σ => (σ.deferred, σ.ran, σ.priorityRan))
      = some ([⟨2, 1⟩], [], [⟨⟨3, 1⟩, 1⟩]) ∧
    (run chained new
        ([.call .begin, .execute, .call (.deferOperation 0), .execute,
          .call (.deferOperation 2), .execute, .call .shutdown, .execute, .execute, .execute,
          .complete 1] ++ List.replicate 5 .execute)).map
        (fun σ => (σ.ran, σ.m_pending_operations, σ.inlineRan, σ.completed, σ.currentTick))
      = some ([⟨⟨0, 1⟩, 1⟩], [⟨2, 1⟩], [1], 1, 2) ∧
    (run chained new
        ([.call .begin, .execute, .call (.deferOperation 4), .execute, .call .finishCurrent,
          .execute, .execute, .complete 1] ++ List.replicate 14 .execute)).bind
        (fun σ => σ.handedOut.head?) = some ⟨0, 2, 1, some 1⟩ := by
  decide +kernel

end Scheduler

end MagnusPS5.Graphics.CommandScheduler
