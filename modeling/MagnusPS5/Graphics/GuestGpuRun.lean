/-
The queues of `GuestGpu` over all interleavings.

`work` is what a queue still has to do: the submission of it that is being processed, and those
that wait. `QueueInv` accounts for every submission that was accepted, `CommandInv` for every
command, and `FlagInv` says what the flags tell about the GPU thread. `guestGpu_schedule` reads
off the order of submissions and commands, the counters, and what holds when `WaitForIdle`
returns and when the thread stops; a command that the GPU thread sends does not wait for the
ones before it, and past its loop `WaitForIdle` does not wait for the command (`inline_overtakes`).
-/
import MagnusPS5.Graphics.GuestGpu
import Mathlib.Algebra.BigOperators.Group.Finset.Piecewise
import Mathlib.Algebra.Order.BigOperators.Group.Finset

namespace MagnusPS5.Graphics.GuestGpu

open List Option Function Nat
open Function (update)
open State Pc Submission

/-! ## Where the work is -/

namespace Pc

/-- The submission that the GPU thread has taken from its queue. -/
def current : Pc → Option Submission
  | .processing s => some s
  | .draining s => some s
  | .drainRunning s _ => some s
  | _ => none

/-- The commands that are running: one that was taken from the queue, or those that the GPU thread
has sent past its loop. -/
def commands : Pc → List Command
  | .running c => [c]
  | .drainRunning _ c => [c]
  | .stopping inline => inline.map fun id => { id, inline := true }
  | _ => []

/-- The GPU thread works on what it has taken from a queue. -/
def working : Pc → Bool
  | .running _ | .processing _ | .draining _ | .drainRunning _ _ => true
  | _ => false

/-- The GPU thread is past its loop. -/
def ended : Pc → Bool
  | .stopping _ => true
  | .stopped => true
  | _ => false

theorem of_not_working {pc : Pc} (h : pc.working = false) :
    pc.current = none ∧ ∀ c ∈ pc.commands, pc.ended = true ∧ c.inline = true := by
  cases pc <;> simp_all [working, current, commands, ended]

theorem not_working_of_ended {pc : Pc} (h : pc.ended = true) : pc.working = false := by
  cases pc <;> first | rfl | cases h

end Pc

variable {σ τ : State}

/-- The submissions of a queue that have not completed, in their order. -/
def pendingList (σ : State) (q : ℕ) : List Submission :=
  σ.pc.current.toList.filter (fun s => s.queue_id = q) ++ σ.m_queues q

/-- Their numbers, and whether they have started. -/
def work (σ : State) (q : ℕ) : List (ℕ × Bool) :=
  (pendingList σ q).map fun s => (s.id, s.started)

/-- The commands of other threads, and those of the GPU thread. -/
def queuedOnly (commands : List Command) : List Command := commands.filter fun c => !c.inline

def inlineOnly (commands : List Command) : List Command := commands.filter Command.inline

/-- Every submission that was accepted is completed or in `work`; of `work` at most the first
one has started. -/
structure QueueInv (σ : State) : Prop where
  count : σ.m_submission_count = ∑ q ∈ Finset.range QueueCount, (σ.m_queues q).length
  queue_id : ∀ q s, s ∈ pendingList σ q → s.queue_id = q ∧ q < QueueCount
  current : ∀ s, σ.pc.current = some s → s.started = true ∧ s.queue_id < QueueCount
  enqueued : ∀ q, σ.enqueued q = σ.completed q ++ (work σ q).map Prod.fst
  started : ∀ q, σ.started q = σ.completed q ++ ((work σ q).filter Prod.snd).map Prod.fst
  tail : ∀ q, ∀ x ∈ (work σ q).tail, x.2 = false
  increasing : ∀ q, (σ.enqueued q).Pairwise (· < ·)
  below : ∀ q, ∀ i ∈ σ.enqueued q, i < σ.calls

/-- Every command that was accepted has begun to run or waits in the queue. -/
structure CommandInv (σ : State) : Prop where
  pending : σ.m_pending_commands = σ.m_commands.length
  queued : queuedOnly σ.sent = queuedOnly σ.ran ++ σ.m_commands
  atOnce : inlineOnly σ.sent = inlineOnly σ.ran
  finished : ∀ c ∈ σ.ran, c ∈ σ.finished ∨ c ∈ σ.pc.commands
  increasing : σ.sent.Pairwise fun c d => c.id < d.id
  below : ∀ c ∈ σ.sent, c.id < σ.calls
  draining : ∀ s, σ.pc = .draining s → σ.m_commands ≠ []

/-- What the flags say. -/
structure FlagInv (σ : State) : Prop where
  processing : σ.pc.working = true → σ.m_processing = true
  stopping : σ.m_stopping = true → σ.m_accepting = false
  ended : σ.pc.ended = true →
    σ.m_stopping = true ∧ σ.m_commands = [] ∧ σ.m_submission_count = 0

/-- The invariant of all runs. -/
structure Inv (σ : State) : Prop where
  queue : QueueInv σ
  command : CommandInv σ
  flag : FlagInv σ

/-! ## Steps that leave a part alone -/

theorem QueueInv.congr (h : QueueInv σ) (hqueues : τ.m_queues = σ.m_queues)
    (hcount : τ.m_submission_count = σ.m_submission_count) (hcurrent : τ.pc.current = σ.pc.current)
    (henqueued : τ.enqueued = σ.enqueued) (hstarted : τ.started = σ.started)
    (hcompleted : τ.completed = σ.completed) (hcalls : σ.calls ≤ τ.calls) : QueueInv τ := by
  have hpending : ∀ q, pendingList τ q = pendingList σ q := by
    intro q
    rw [pendingList, pendingList, hqueues, hcurrent]
  have hwork : ∀ q, work τ q = work σ q := by
    intro q
    rw [work, work, hpending]
  exact
    { count := by rw [hcount, hqueues, h.count]
      queue_id := fun q s hs => h.queue_id q s (hpending q ▸ hs)
      current := fun s hs => h.current s (hcurrent ▸ hs)
      enqueued := fun q => by rw [henqueued, hcompleted, hwork, h.enqueued]
      started := fun q => by rw [hstarted, hcompleted, hwork, h.started]
      tail := fun q => by rw [hwork]; exact h.tail q
      increasing := fun q => by rw [henqueued]; exact h.increasing q
      below := fun q i hi => (h.below q i (henqueued ▸ hi)).trans_le hcalls }

theorem CommandInv.congr (h : CommandInv σ) (hcommands : τ.m_commands = σ.m_commands)
    (hpending : τ.m_pending_commands = σ.m_pending_commands) (hsent : τ.sent = σ.sent)
    (hran : τ.ran = σ.ran) (hfinished : τ.finished = σ.finished)
    (hcommand : τ.pc.commands = σ.pc.commands) (hcalls : σ.calls ≤ τ.calls)
    (hdraining : ∀ s, τ.pc = .draining s → σ.m_commands ≠ []) : CommandInv τ where
  pending := by rw [hpending, hcommands, h.pending]
  queued := by rw [hsent, hran, hcommands, h.queued]
  atOnce := by rw [hsent, hran, h.atOnce]
  finished c hc := by
    rw [hfinished, hcommand]
    exact h.finished c (hran ▸ hc)
  increasing := by rw [hsent]; exact h.increasing
  below c hc := (h.below c (hsent ▸ hc)).trans_le hcalls
  draining s hs := by
    rw [hcommands]
    exact hdraining s hs

theorem FlagInv.congr (h : FlagInv σ) (hprocessing : τ.m_processing = σ.m_processing)
    (hstopping : τ.m_stopping = σ.m_stopping) (haccepting : τ.m_accepting = σ.m_accepting)
    (hpc : τ.pc = σ.pc) (hcommands : τ.m_commands = σ.m_commands)
    (hcount : τ.m_submission_count = σ.m_submission_count) : FlagInv τ where
  processing hp := by
    rw [hprocessing]
    exact h.processing (hpc ▸ hp)
  stopping hs := by
    rw [haccepting]
    exact h.stopping (hstopping ▸ hs)
  ended he := by
    rw [hstopping, hcommands, hcount]
    exact h.ended (hpc ▸ he)

/-! ## The queues -/

variable {q : ℕ} {α : Type} {c : Command} {next : Command → Pc}

theorem sum_update (m_queues : ℕ → List Submission) (hq : q < QueueCount) (l : List Submission) :
    (∑ i ∈ .range QueueCount, (update m_queues q l i).length) + (m_queues q).length
      = (∑ i ∈ Finset.range QueueCount, (m_queues i).length) + l.length := by
  have hmem : q ∈ Finset.range QueueCount := Finset.mem_range.mpr hq
  have hfun : (fun i => (update m_queues q l i).length)
      = update (fun i => (m_queues i).length) q l.length := by
    funext i
    by_cases hi : i = q
    · simp [hi]
    · simp [hi]
  rw [hfun, Finset.sum_update_of_mem hmem, ← Finset.add_sum_erase _ _ hmem,
    Finset.sdiff_singleton_eq_erase]
  omega

theorem QueueInv.change (h : QueueInv σ) (q : ℕ) (hq : q < QueueCount)
    (hqueues : ∀ i, i ≠ q → τ.m_queues i = σ.m_queues i)
    (hcount : τ.m_submission_count + (σ.m_queues q).length
      = σ.m_submission_count + (τ.m_queues q).length)
    (hpending : ∀ i, i ≠ q → pendingList τ i = pendingList σ i)
    (hid : ∀ s ∈ pendingList τ q, s.queue_id = q)
    (hcurrent : ∀ s, τ.pc.current = some s → s.started = true ∧ s.queue_id < QueueCount)
    (henqueued : ∀ i, i ≠ q → τ.enqueued i = σ.enqueued i)
    (hstarted : ∀ i, i ≠ q → τ.started i = σ.started i)
    (hcompleted : ∀ i, i ≠ q → τ.completed i = σ.completed i)
    (henqueued_q : τ.enqueued q = τ.completed q ++ (work τ q).map Prod.fst)
    (hstarted_q : τ.started q = τ.completed q ++ ((work τ q).filter Prod.snd).map Prod.fst)
    (htail : ∀ x ∈ (work τ q).tail, x.2 = false)
    (hincreasing : (τ.enqueued q).Pairwise (· < ·)) (hbelow : ∀ i ∈ τ.enqueued q, i < τ.calls)
    (hcalls : σ.calls ≤ τ.calls) : QueueInv τ := by
  have hwork : ∀ i, i ≠ q → work τ i = work σ i := by
    intro i hi
    rw [work, work, hpending i hi]
  have hupdate : τ.m_queues = update σ.m_queues q (τ.m_queues q) := by
    funext i
    by_cases hi : i = q
    · rw [hi, update_self]
    · rw [update_of_ne hi, hqueues i hi]
  refine { count := ?_, queue_id := fun i s hs => ?_, current := hcurrent,
           enqueued := fun i => ?_, started := fun i => ?_, tail := fun i => ?_,
           increasing := fun i => ?_, below := fun i => ?_ }
  · have hsum := sum_update σ.m_queues hq (τ.m_queues q)
    rw [← hupdate, ← h.count] at hsum
    omega
  · by_cases hi : i = q
    · rw [hi] at hs ⊢
      exact ⟨hid s hs, hq⟩
    · exact h.queue_id i s (hpending i hi ▸ hs)
  · by_cases hi : i = q
    · rw [hi, henqueued_q]
    · rw [henqueued i hi, hcompleted i hi, hwork i hi, h.enqueued]
  · by_cases hi : i = q
    · rw [hi, hstarted_q]
    · rw [hstarted i hi, hcompleted i hi, hwork i hi, h.started]
  · by_cases hi : i = q
    · rw [hi]
      exact htail
    · rw [hwork i hi]
      exact h.tail i
  · by_cases hi : i = q
    · rw [hi]
      exact hincreasing
    · rw [henqueued i hi]
      exact h.increasing i
  · intro j hj
    by_cases hi : i = q
    · exact hbelow j (hi ▸ hj)
    · exact (h.below i j (henqueued i hi ▸ hj)).trans_le hcalls

theorem mem_tail_concat {l : List α} {a x : α} (h : x ∈ (l ++ [a]).tail) : x ∈ l.tail ∨ x = a := by
  cases l with
  | nil => simp at h
  | cons b l => simpa using h

variable {s : Submission}

/-- **Enqueue.** -/
theorem QueueInv.enqueue (h : QueueInv σ) (hτ : σ.enqueue s = some τ)
    (hid : s.id = σ.calls) (hstarted : s.started = false) : QueueInv τ := by
  unfold State.enqueue at hτ
  split_ifs at hτ with hbad
  rw [not_or, not_le] at hbad
  cases hτ
  refine h.change s.queue_id hbad.1 (fun i hi => by simp [hi]) (by simp; omega)
    (fun i hi => by simp [pendingList, hi]) (fun s' hs' => ?_) h.current
    (fun i hi => by simp [hi]) (fun i hi => rfl) (fun i hi => rfl) ?_ ?_ ?_ ?_ ?_
    (le_succ _)
  · simp only [pendingList, update_self, ← append_assoc] at hs'
    rcases mem_append.mp hs' with hold | hnew
    · exact (h.queue_id _ s' hold).1
    · rw [mem_singleton.mp hnew]
  · have hold := h.enqueued s.queue_id
    simp [work, pendingList, hold]
  · have hold := h.started s.queue_id
    simp [work, pendingList, hold, hstarted]
  · intro x hx
    rw [work, pendingList] at hx
    dsimp only at hx
    rw [update_self, ← append_assoc, map_append, map_singleton] at hx
    rcases mem_tail_concat hx with hold | rfl
    · exact h.tail s.queue_id x hold
    · exact hstarted
  · dsimp only
    rw [update_self, pairwise_append]
    refine ⟨h.increasing _, pairwise_singleton _ _, fun i hi j hj => ?_⟩
    rw [mem_singleton.mp hj, hid]
    exact h.below _ i hi
  · dsimp only
    intro i hi
    rw [update_self] at hi
    rcases mem_append.mp hi with hold | hnew
    · exact (h.below _ i hold).trans (lt_succ_self _)
    · rw [mem_singleton.mp hnew, hid]
      exact lt_succ_self _

/-- **A submission is taken** from the front of its queue. -/
theorem QueueInv.take (h : QueueInv σ) {rest : List Submission}
    (hnone : σ.pc.current = none) (hq : σ.m_queues q = s :: rest) :
    QueueInv (σ.takeSubmission q s rest) := by
  have hpending : pendingList σ q = s :: rest := by
    rw [pendingList, hnone, hq]
    rfl
  obtain ⟨hid, hlt⟩ := h.queue_id q s (by rw [hpending]; exact .head _)
  have hpos : 0 < σ.m_submission_count := by
    rw [h.count]
    refine Finset.sum_pos' (fun _ _ => zero_le _) ⟨q, Finset.mem_range.mpr hlt, ?_⟩
    rw [hq]
    simp
  have hrest : ∀ x ∈ rest, x.started = false := by
    intro x hx
    refine h.tail q (x.id, x.started) ?_
    rw [work, hpending, map_cons, tail_cons]
    exact mem_map.mpr ⟨x, hx, rfl⟩
  have hfilter : (rest.map fun s => (s.id, s.started)).filter Prod.snd = [] := by
    rw [filter_eq_nil_iff]
    intro x hx
    obtain ⟨s', hs', rfl⟩ := mem_map.mp hx
    simp [hrest s' hs']
  -- the queue is left with the same work, of which the first has now started
  have hnew : pendingList (σ.takeSubmission q s rest) q = { s with started := true } :: rest := by
    simp [pendingList, State.takeSubmission, Pc.current, hid]
  have hstart : ∀ i, (σ.takeSubmission q s rest).started i
      = if i = q ∧ s.started = false then σ.started i ++ [s.id] else σ.started i := by
    intro i
    rw [takeSubmission]
    cases hs : s.started with
    | true => simp
    | false =>
      by_cases hi : i = q
      · simp [hi, hid]
      · simp [hi, hid]
  refine h.change q hlt (fun i hi => by simp [State.takeSubmission, hi]) ?_ (fun i hi => ?_)
    (fun s' hs' => ?_) (fun s' hs' => ?_) (fun i hi => rfl) (fun i hi => ?_) (fun i hi => rfl)
    ?_ ?_ ?_ (h.increasing q) (h.below q) (le_rfl)
  · simp only [State.takeSubmission, update_self, hq, length_cons]
    omega
  · have hne : q ≠ i := Ne.symm hi
    rw [pendingList, pendingList, hnone]
    simp [State.takeSubmission, Pc.current, hid, hi, hne]
  · rw [hnew] at hs'
    rcases mem_cons.mp hs' with rfl | hmem
    · exact hid
    · exact (h.queue_id q s' (by rw [hpending]; exact .tail _ hmem)).1
  · rw [← some.inj hs']
    exact ⟨rfl, by rw [hid]; exact hlt⟩
  · rw [hstart, if_neg (fun hand => hi hand.1)]
  · have hold := h.enqueued q
    rw [work, hpending] at hold
    rw [work, hnew]
    exact hold
  · have hold := h.started q
    rw [work, hpending, map_cons, filter_cons, hfilter] at hold
    rw [hstart, work, hnew, map_cons, filter_cons, hfilter, hold]
    cases hs : s.started <;> simp [takeSubmission]
  · rw [work, hnew, map_cons, tail_cons]
    intro x hx
    obtain ⟨s', hs', rfl⟩ := mem_map.mp hx
    exact hrest s' hs'

theorem unblockAll_map (f : Submission → α)
    (hf : ∀ s : Submission, f { s with blocked := false } = f s) (q : ℕ) :
    (unblockAll σ.m_queues q).map f = (σ.m_queues q).map f := by
  unfold unblockAll
  cases hq : σ.m_queues q with
  | nil => rfl
  | cons s rest =>
    dsimp only
    split
    · rw [map_cons, hf, map_cons]
    · rfl

theorem QueueInv.unblock (h : QueueInv σ) (hqueues : τ.m_queues = State.unblockAll σ.m_queues)
    (hcount : τ.m_submission_count = σ.m_submission_count) (hcurrent : τ.pc.current = σ.pc.current)
    (henqueued : τ.enqueued = σ.enqueued) (hstarted : τ.started = σ.started)
    (hcompleted : τ.completed = σ.completed) (hcalls : σ.calls = τ.calls) : QueueInv τ := by
  have hmap : ∀ {α : Type} (f : Submission → α),
      (∀ s : Submission, f { s with blocked := false } = f s) → ∀ q,
        (pendingList τ q).map f = (pendingList σ q).map f := by
    intro α f hf q
    rw [pendingList, pendingList, map_append, map_append, hcurrent, hqueues, unblockAll_map f hf]
  have hwork : ∀ q, work τ q = work σ q := fun q => hmap (fun s => (s.id, s.started))
    (fun _ => rfl) q
  exact
    { count := by
        have hlength : ∀ q, (τ.m_queues q).length = (σ.m_queues q).length := by
          intro q
          have := congrArg length (unblockAll_map (σ := σ) Submission.id (fun _ => rfl) q)
          simpa [hqueues] using this
        rw [hcount, h.count]
        simp only [hlength]
      queue_id := fun q s hs => by
        have hmem := mem_map_of_mem (f := Submission.queue_id) hs
        rw [hmap Submission.queue_id (fun _ => rfl)] at hmem
        obtain ⟨s', hs', heq⟩ := mem_map.mp hmem
        rw [← heq]
        exact h.queue_id q s' hs'
      current := fun s hs => h.current s (hcurrent ▸ hs)
      enqueued := fun q => by rw [henqueued, hcompleted, hwork, h.enqueued]
      started := fun q => by rw [hstarted, hcompleted, hwork, h.started]
      tail := fun q => by rw [hwork]; exact h.tail q
      increasing := fun q => by rw [henqueued]; exact h.increasing q
      below := fun q i hi => hcalls ▸ h.below q i (henqueued ▸ hi) }

theorem pendingList_current (hcurrent : σ.pc.current = some s) (q : ℕ) :
    pendingList σ q = if q = s.queue_id then s :: σ.m_queues q else σ.m_queues q := by
  rw [pendingList, hcurrent]
  by_cases hq : q = s.queue_id
  · simp [hq]
  · simp [hq, Ne.symm hq]

/-- **A submission is complete.** -/
theorem QueueInv.complete (h : QueueInv σ) (hcurrent : σ.pc.current = some s) :
    QueueInv (σ.finishSubmission s true) := by
  obtain ⟨hstarted, hlt⟩ := h.current s hcurrent
  have hpending := pendingList_current hcurrent
  -- first without the flags of the other submissions
  set υ : State := { σ with
    completed := update σ.completed s.queue_id (σ.completed s.queue_id ++ [s.id]), pc := .top }
    with hυ
  have hmid : QueueInv υ := by
    have hnew : ∀ q, pendingList υ q = σ.m_queues q := fun q => rfl
    have hwork : work σ s.queue_id = (s.id, true) :: work υ s.queue_id := by
      rw [work, hpending, if_pos rfl, map_cons, hstarted]
      rfl
    refine h.change s.queue_id hlt (fun i hi => rfl) rfl (fun i hi => ?_) (fun s' hs' => ?_)
      (fun s' hs' => ?_) (fun i hi => rfl) (fun i hi => rfl) (fun i hi => ?_) ?_ ?_ ?_
      (h.increasing _) (h.below _) (le_rfl)
    · rw [hnew, hpending, if_neg hi]
    · rw [hnew] at hs'
      refine (h.queue_id s.queue_id s' ?_).1
      rw [hpending, if_pos rfl]
      exact .tail _ hs'
    · cases hs'
    · simp [hυ, hi]
    · have hold := h.enqueued s.queue_id
      rw [hwork] at hold
      simp [hυ, hold]
    · have hold := h.started s.queue_id
      rw [hwork] at hold
      simp [hυ, hold]
    · have hold := h.tail s.queue_id
      rw [hwork, tail_cons] at hold
      exact fun x hx => hold x (mem_of_mem_tail hx)
  exact hmid.unblock rfl rfl rfl rfl rfl rfl rfl

/-- **A submission is blocked** and goes back to the front of its queue. -/
theorem QueueInv.putBack (h : QueueInv σ) (hcurrent : σ.pc.current = some s) :
    QueueInv (σ.finishSubmission s false) := by
  obtain ⟨hstarted, hlt⟩ := h.current s hcurrent
  have hpending := pendingList_current hcurrent
  have hnew : ∀ q, pendingList (σ.finishSubmission s false) q
      = if q = s.queue_id then { s with blocked := true } :: σ.m_queues q else σ.m_queues q := by
    intro q
    by_cases hq : q = s.queue_id
    · simp [pendingList, State.finishSubmission, Pc.current, hq]
    · simp [pendingList, State.finishSubmission, Pc.current, hq]
  have hwork : work (σ.finishSubmission s false) s.queue_id = work σ s.queue_id := by
    rw [work, hnew, if_pos rfl, work, hpending, if_pos rfl]
    rfl
  refine h.change s.queue_id hlt (fun i hi => by simp [finishSubmission, hi]) ?_
    (fun i hi => ?_) (fun s' hs' => ?_) (fun s' hs' => by cases hs') (fun i hi => rfl)
    (fun i hi => rfl) (fun i hi => rfl) ?_ ?_ ?_ (h.increasing _) (h.below _) (le_rfl)
  · simp [finishSubmission]
    omega
  · rw [hnew, hpending, if_neg hi, if_neg hi]
  · rw [hnew, if_pos rfl] at hs'
    rcases mem_cons.mp hs' with rfl | hmem
    · rfl
    · refine (h.queue_id s.queue_id s' ?_).1
      rw [hpending, if_pos rfl]
      exact .tail _ hmem
  · rw [hwork]
    exact h.enqueued _
  · rw [hwork]
    exact h.started _
  · rw [hwork]
    exact h.tail _

/-! ## The commands -/

theorem queuedOnly_append (l l' : List Command) :
    queuedOnly (l ++ l') = queuedOnly l ++ queuedOnly l' := filter_append ..

theorem inlineOnly_append (l l' : List Command) :
    inlineOnly (l ++ l') = inlineOnly l ++ inlineOnly l' := filter_append ..

@[simp] theorem queuedOnly_singleton (c : Command) :
    queuedOnly [c] = if c.inline then [] else [c] := by
  cases hc : c.inline <;> simp [queuedOnly, hc]

@[simp] theorem inlineOnly_singleton (c : Command) :
    inlineOnly [c] = if c.inline then [c] else [] := by
  cases hc : c.inline <;> simp [inlineOnly, hc]

section

variable (h : CommandInv σ)

include h

theorem CommandInv.increasing_append (hid : c.id = σ.calls) :
    (σ.sent ++ [c]).Pairwise (fun c d => c.id < d.id) ∧ ∀ d ∈ σ.sent ++ [c], d.id < σ.calls + 1 := by
  constructor
  · rw [pairwise_append]
    refine ⟨h.increasing, pairwise_singleton _ _, fun d hd e he => ?_⟩
    rw [mem_singleton.mp he, hid]
    exact h.below d hd
  · intro d hd
    rcases mem_append.mp hd with hold | hnew
    · exact (h.below d hold).trans (lt_succ_self _)
    · rw [mem_singleton.mp hnew, hid]
      exact lt_succ_self _

/-- **A command is sent** by another thread. -/
theorem CommandInv.send (hτ : σ.sendCommand = some τ) : CommandInv τ := by
  unfold sendCommand at hτ
  split_ifs at hτ
  cases hτ
  obtain ⟨hincreasing, hbelow⟩ := h.increasing_append (c := { id := σ.calls, inline := false }) rfl
  refine { pending := ?_, queued := ?_, atOnce := ?_, finished := h.finished,
           increasing := hincreasing, below := hbelow, draining := fun s hs => ?_ }
  · simp [h.pending]
  · simp [queuedOnly_append, h.queued]
  · simp [inlineOnly_append, h.atOnce]
  · simp

/-- **A command that the GPU thread sends** runs at once. -/
theorem CommandInv.inline (pc : Pc) (finished : List Command)
    (hold : ∀ c, c ∈ σ.finished ∨ c ∈ σ.pc.commands → c ∈ finished ∨ c ∈ pc.commands)
    (hnew : ⟨σ.calls, true⟩ ∈ finished ∨ ⟨σ.calls, true⟩ ∈ pc.commands)
    (hdraining : ∀ s, pc = .draining s → σ.m_commands ≠ []) :
    CommandInv { σ.runInline with pc := pc, finished := finished } := by
  obtain ⟨hincreasing, hbelow⟩ := h.increasing_append (c := { id := σ.calls, inline := true }) rfl
  refine { pending := h.pending, queued := ?_, atOnce := ?_, finished := fun c hc => ?_,
           increasing := hincreasing, below := hbelow, draining := hdraining }
  · simp only [runInline, queuedOnly_append, h.queued]
    simp
  · simp only [runInline, inlineOnly_append, h.atOnce]
  · simp only [runInline, mem_append, mem_singleton] at hc
    rcases hc with hc | rfl
    · exact hold c (h.finished c hc)
    · exact hnew

/-- **A command is taken** from the front of the queue. -/
theorem CommandInv.take (hτ : σ.takeCommand next = some τ) (hnone : σ.pc.commands = [])
    (hnext : ∀ c, (next c).commands = [c] ∧ ∀ s, next c ≠ .draining s) : CommandInv τ := by
  unfold takeCommand at hτ
  split at hτ
  · cases hτ
  next c rest hcommands =>
    split_ifs at hτ
    cases hτ
    have hsent : queuedOnly σ.sent = queuedOnly σ.ran ++ c :: rest := hcommands ▸ h.queued
    have hpending := h.pending
    rw [hcommands, length_cons] at hpending
    have hqueued : c.inline = false := by
      have hmem : c ∈ queuedOnly σ.sent := by
        rw [hsent]
        simp
      simpa using (mem_filter.mp hmem).2
    refine { pending := ?_, queued := ?_, atOnce := ?_, finished := fun d hd => ?_,
             increasing := h.increasing, below := h.below, draining := fun s hs => ?_ }
    · dsimp only
      omega
    · simp [queuedOnly_append, hsent, hqueued]
    · simp [inlineOnly_append, h.atOnce, hqueued]
    · rcases mem_append.mp hd with hold | hnew
      · rcases h.finished d hold with h' | h'
        · exact .inl h'
        · rw [hnone] at h'
          cases h'
      · rw [mem_singleton.mp hnew]
        exact .inr (by rw [(hnext c).1]; exact mem_singleton_self c)
    · exact absurd hs ((hnext c).2 s)

theorem CommandInv.finish (hc : σ.pc.commands = c :: τ.pc.commands)
    (hcommands : τ.m_commands = σ.m_commands)
    (hpending : τ.m_pending_commands = σ.m_pending_commands) (hsent : τ.sent = σ.sent)
    (hran : τ.ran = σ.ran) (hfinished : τ.finished = σ.finished ++ [c])
    (hcalls : τ.calls = σ.calls) (hdraining : ∀ s, τ.pc = .draining s → σ.m_commands ≠ []) :
    CommandInv τ where
  pending := by rw [hpending, hcommands, h.pending]
  queued := by rw [hsent, hran, hcommands, h.queued]
  atOnce := by rw [hsent, hran, h.atOnce]
  finished d hd := by
    rw [hfinished]
    rcases h.finished d (hran ▸ hd) with h' | h'
    · exact .inl (mem_append_left _ h')
    · rw [hc, mem_cons] at h'
      exact h'.imp_left fun heq => mem_append_right _ (mem_singleton.mpr heq)
  increasing := by rw [hsent]; exact h.increasing
  below d hd := by
    rw [hcalls]
    exact h.below d (hsent ▸ hd)
  draining s hs := by
    rw [hcommands]
    exact hdraining s hs

end

/-! ## One step -/

namespace Inv

section

variable (h : Inv σ)

include h

theorem not_ended (haccepting : σ.m_accepting ≠ false) : σ.pc.ended = false := by
  by_contra hended
  rw [Bool.not_eq_false] at hended
  exact haccepting (h.flag.stopping (h.flag.ended hended).1)

theorem congr (done : Option (Bool × DoneStage)) (m_graphics_done : Bool) (m_done_num : ℕ) :
    Inv { σ with done := done, m_graphics_done := m_graphics_done, m_done_num := m_done_num } where
  queue := h.queue.congr rfl rfl rfl rfl rfl rfl (le_rfl)
  command := h.command.congr rfl rfl rfl rfl rfl rfl (le_rfl) h.command.draining
  flag := h.flag.congr rfl rfl rfl rfl rfl rfl

theorem enqueue (hτ : σ.enqueue s = some τ)
    (hid : s.id = σ.calls) (hstarted : s.started = false) : Inv τ := by
  have hqueue := h.queue.enqueue hτ hid hstarted
  unfold State.enqueue at hτ
  split_ifs at hτ with hbad
  rw [not_or] at hbad
  have hended := h.not_ended hbad.2
  cases hτ
  exact
    { queue := hqueue
      command := h.command.congr rfl rfl rfl rfl rfl rfl (le_succ _) h.command.draining
      flag :=
        { processing := h.flag.processing
          stopping := h.flag.stopping
          ended := fun he => by
            rw [hended] at he
            cases he } }

theorem submit {type : SubmissionType} (hτ : σ.submit type = some τ) : Inv τ :=
  (h.congr σ.done false σ.m_done_num).enqueue hτ rfl rfl

theorem submitCompute {queue : ℕ} (hτ : σ.submitCompute queue = some τ) : Inv τ := by
  unfold State.submitCompute at hτ
  split_ifs at hτ
  exact h.enqueue hτ rfl rfl

theorem sendCommand (hτ : σ.sendCommand = some τ) : Inv τ := by
  have hcommand := h.command.send hτ
  unfold State.sendCommand at hτ
  split_ifs at hτ with haccepting
  have hended := h.not_ended haccepting
  cases hτ
  exact
    { queue := h.queue.congr rfl rfl rfl rfl rfl rfl (le_succ _)
      command := hcommand
      flag :=
        { processing := h.flag.processing
          stopping := h.flag.stopping
          ended := fun he => by
            rw [hended] at he
            cases he } }

theorem runInline : Inv σ.runInline where
  queue := h.queue.congr rfl rfl rfl rfl rfl rfl (le_succ _)
  command := h.command.inline σ.pc _ (fun _ hc => hc.imp_left (mem_append_left _))
    (.inl (mem_append_right _ (mem_singleton_self _))) h.command.draining
  flag := h.flag.congr rfl rfl rfl rfl rfl rfl

theorem shutdown : Inv σ.shutdown where
  queue := h.queue.congr rfl rfl rfl rfl rfl rfl (le_rfl)
  command := h.command.congr rfl rfl rfl rfl rfl rfl (le_rfl) h.command.draining
  flag :=
    { processing := h.flag.processing
      stopping := fun _ => rfl
      ended := fun he => ⟨rfl, (h.flag.ended he).2⟩ }

theorem doneBegin (onGpu : Bool) : Inv (σ.doneBegin onGpu) := by
  unfold State.doneBegin
  split_ifs
  · exact h
  · exact h.congr _ σ.m_graphics_done σ.m_done_num
  · exact h.congr _ σ.m_graphics_done σ.m_done_num

theorem doneNext {capturing : Bool} (hτ : σ.doneNext capturing = some τ) : Inv τ := by
  unfold State.doneNext at hτ
  split at hτ
  · rw [← some.inj hτ]
    exact h
  · rw [← some.inj hτ]
    split_ifs
    · exact h
    · exact h.congr _ σ.m_graphics_done σ.m_done_num
  · split_ifs at hτ
    · rw [← some.inj hτ]
      exact h.congr _ σ.m_graphics_done σ.m_done_num
    · rw [← some.inj hτ]
      exact h.runInline.congr _ σ.m_graphics_done σ.m_done_num
    · obtain ⟨υ, hυ, rfl⟩ := map_eq_some_iff.mp hτ
      exact (h.sendCommand hυ).congr _ υ.m_graphics_done υ.m_done_num
  · rw [← some.inj hτ]
    split_ifs
    · exact h.congr _ σ.m_graphics_done σ.m_done_num
    · exact h
  · rw [← some.inj hτ]
    exact h.congr _ true (σ.m_done_num + 1)

theorem takeCommand (hτ : σ.takeCommand next = some τ) (hnone : σ.pc.commands = [])
    (hnext : ∀ c, (next c).commands = [c] ∧ ∀ s, next c ≠ .draining s)
    (hcurrent : ∀ c, (next c).current = σ.pc.current) (hended : ∀ c, (next c).ended = false) :
    Inv τ := by
  have hcommand := h.command.take hτ hnone hnext
  unfold State.takeCommand at hτ
  split at hτ
  · cases hτ
  next c rest hcommands =>
    split_ifs at hτ
    cases hτ
    exact
      { queue := h.queue.congr rfl rfl (hcurrent c) rfl rfl rfl (le_rfl)
        command := hcommand
        flag :=
          { processing := fun _ => rfl
            stopping := h.flag.stopping
            ended := fun he => by
              rw [hended c] at he
              cases he } }

theorem atRest (hcurrent : σ.pc.current = none) (hcommand : σ.pc.commands = [])
    (m_processing : Bool) (pc : Pc) (hworking : pc.working = false) (hnone : pc.commands = [])
    (hended : pc.ended = true →
      σ.m_stopping = true ∧ σ.m_commands = [] ∧ σ.m_submission_count = 0) :
    Inv { σ with m_processing := m_processing, pc := pc } where
  queue := h.queue.congr rfl rfl ((of_not_working hworking).1.trans hcurrent.symm) rfl rfl rfl
    (le_rfl)
  command := h.command.congr rfl rfl rfl rfl rfl (hnone.trans hcommand.symm) (le_rfl)
    fun s hs => by
      dsimp only at hs
      rw [hs] at hworking
      cases hworking
  flag :=
    { processing := fun hp => by rw [hworking] at hp; cases hp
      stopping := h.flag.stopping
      ended := hended }

/-- **The top of the loop** of `ThreadRun`. -/
theorem selectWork (hpc : σ.pc = .top) (hτ : σ.selectWork = some τ) : Inv τ := by
  have hcurrent : σ.pc.current = none := by rw [hpc]; rfl
  have hcommand : σ.pc.commands = [] := by rw [hpc]; rfl
  unfold State.selectWork at hτ
  split_ifs at hτ with hidle hstop hcommands
  · rw [← some.inj hτ]
    exact h.atRest hcurrent hcommand false σ.pc (by rw [hpc]; rfl) hcommand
      (by rw [hpc]; intro he; cases he)
  · rw [← some.inj hτ]
    exact h.atRest hcurrent hcommand false _ rfl rfl fun _ => hstop
  · exact h.takeCommand hτ hcommand (fun c => ⟨rfl, by simp⟩) (fun c => hcurrent.symm) fun c => rfl
  · split at hτ
    · rw [← some.inj hτ]
      exact h.atRest hcurrent hcommand false _ rfl rfl (by intro he; cases he)
    · split at hτ
      · cases hτ
      next q _ _ s rest hq =>
        rw [← some.inj hτ]
        exact
          { queue := h.queue.take hcurrent hq
            command := h.command.congr rfl rfl rfl rfl rfl hcommand.symm (le_rfl)
              (by simp [takeSubmission])
            flag :=
              { processing := fun _ => rfl
                stopping := h.flag.stopping
                ended := fun he => by cases he } }

theorem drain {υ : State} (hcurrent : σ.pc.current = some s)
    (hprocessing : σ.m_processing = true) (hυ : υ = σ ∨ ∃ c, σ.pc.commands = [c] ∧
      υ = σ.finishCommand c) (hcommand : υ = σ → σ.pc.commands = []) : Inv (υ.drain s) := by
  have hcommands : υ.m_pending_commands ≠ 0 → υ.m_commands ≠ [] := by
    intro hpending hnil
    have hsame : υ.m_pending_commands = σ.m_pending_commands ∧ υ.m_commands = σ.m_commands := by
      rcases hυ with rfl | ⟨c, -, rfl⟩ <;> exact ⟨rfl, rfl⟩
    rw [hsame.1, h.command.pending, ← hsame.2, hnil] at hpending
    exact hpending rfl
  -- the thread still has its submission, and no command
  have hpc : ∀ pc : Pc, pc = .draining s ∨ pc = .processing s →
      (pc = .draining s → υ.m_commands ≠ []) → Inv (υ.goto pc) := by
    intro pc hpc hdraining
    have hpc' : pc.current = some s ∧ pc.commands = [] ∧ pc.ended = false := by
      rcases hpc with rfl | rfl <;> exact ⟨rfl, rfl, rfl⟩
    have hdrain : ∀ s', pc = .draining s' → υ.m_commands ≠ [] := by
      intro s' hs'
      refine hdraining ?_
      rcases hpc with rfl | rfl
      · rfl
      · cases hs'
    rcases hυ with rfl | ⟨c, hc, rfl⟩
    · exact
        { queue := h.queue.congr rfl rfl (hpc'.1.trans hcurrent.symm) rfl rfl rfl (le_rfl)
          command := h.command.congr rfl rfl rfl rfl rfl
            (hpc'.2.1.trans (hcommand rfl).symm) (le_rfl) hdrain
          flag :=
            { processing := fun _ => hprocessing
              stopping := h.flag.stopping
              ended := fun he => by
                rw [goto] at he
                rw [hpc'.2.2] at he
                cases he } }
    · exact
        { queue := h.queue.congr rfl rfl (hpc'.1.trans hcurrent.symm) rfl rfl rfl (le_rfl)
          command := h.command.finish (by rw [hc, goto, hpc'.2.1]) rfl rfl rfl rfl rfl rfl hdrain
          flag :=
            { processing := fun _ => hprocessing
              stopping := h.flag.stopping
              ended := fun he => by
                rw [goto] at he
                rw [hpc'.2.2] at he
                cases he } }
  unfold State.drain
  split_ifs with hpending
  · exact hpc _ (.inl rfl) fun _ => hcommands hpending
  · exact hpc _ (.inr rfl) (by simp)

/-- **The GPU thread.** -/
theorem gpu {choice : State.Choice} (hτ : σ.gpu choice = some τ) : Inv τ := by
  unfold State.gpu at hτ
  split at hτ
  next hpc =>
    exact h.selectWork hpc hτ
  next hpc =>
    rw [← some.inj hτ]
    have hmid := h.atRest (by rw [hpc]; rfl) (by rw [hpc]; rfl) σ.m_processing
      .top rfl rfl (by intro he; cases he)
    exact
      { queue := hmid.queue.unblock rfl rfl rfl rfl rfl rfl rfl
        command := hmid.command.congr rfl rfl rfl rfl rfl rfl (le_rfl) (by simp)
        flag := hmid.flag.congr rfl rfl rfl rfl rfl rfl }
  next c hpc =>
    have hc : σ.pc.commands = [c] := by rw [hpc]; rfl
    have hcurrent : σ.pc.current = none := by rw [hpc]; rfl
    split at hτ
    · rw [← some.inj hτ]
      exact h.runInline
    · rw [← some.inj hτ]
      exact
        { queue := h.queue.congr rfl rfl hcurrent.symm rfl rfl rfl (le_rfl)
          command := h.command.finish hc rfl rfl rfl rfl rfl rfl (by simp)
          flag :=
            { processing := nofun
              stopping := h.flag.stopping
              ended := fun he => by cases he } }
  next s hpc =>
    have hcurrent : σ.pc.current = some s := by rw [hpc]; rfl
    have hcommand : σ.pc.commands = [] := by rw [hpc]; rfl
    split at hτ
    · rw [← some.inj hτ]
      exact h.runInline
    · rw [← some.inj hτ]
      exact h.drain hcurrent (h.flag.processing (by rw [hpc]; rfl)) (.inl rfl)
        fun _ => hcommand
    next complete =>
      rw [← some.inj hτ]
      have hflag : FlagInv (σ.finishSubmission s complete) := by
        cases complete <;> exact
          { processing := nofun
            stopping := h.flag.stopping
            ended := fun he => by cases he }
      have hcommands : CommandInv (σ.finishSubmission s complete) := by
        cases complete <;> exact h.command.congr rfl rfl rfl rfl rfl hcommand.symm (le_rfl)
          (by simp [finishSubmission])
      cases complete with
      | true => exact { queue := h.queue.complete hcurrent, command := hcommands, flag := hflag }
      | false => exact { queue := h.queue.putBack hcurrent, command := hcommands, flag := hflag }
  next s hpc =>
    exact h.takeCommand hτ (by rw [hpc]; rfl) (fun c => ⟨rfl, by simp⟩)
      (fun c => by rw [hpc]; rfl) fun c => rfl
  next s c hpc =>
    split at hτ
    · rw [← some.inj hτ]
      exact h.runInline
    · rw [← some.inj hτ]
      have hcurrent : σ.pc.current = some s := by rw [hpc]; rfl
      exact h.drain hcurrent (h.flag.processing (by rw [hpc]; rfl))
        (.inr ⟨c, by rw [hpc]; rfl, rfl⟩) fun heq => by
          have := congrArg (fun υ => υ.finished.length) heq
          simp [finishCommand] at this
  next inline hpc =>
    have hended := h.flag.ended (by rw [hpc]; rfl)
    have hcurrent : σ.pc.current = none := by rw [hpc]; rfl
    have hcommands : σ.pc.commands = inline.map fun id => { id, inline := true } := by rw [hpc]; rfl
    split at hτ
    · rw [← some.inj hτ]
      exact
        { queue := h.queue.congr rfl rfl hcurrent.symm rfl rfl rfl (le_succ _)
          command := h.command.inline (.stopping (σ.calls :: inline)) σ.finished
            (fun c hc => hc.imp_right fun hc => .tail _ (hcommands ▸ hc)) (.inr mem_cons_self) nofun
          flag := { processing := nofun, stopping := h.flag.stopping, ended := fun _ => hended } }
    · rw [← some.inj hτ]
      exact h.atRest hcurrent hcommands σ.m_processing _ rfl rfl fun _ => hended
    · rw [← some.inj hτ]
      exact
        { queue := h.queue.congr rfl rfl hcurrent.symm rfl rfl rfl le_rfl
          command := h.command.finish hcommands rfl rfl rfl rfl rfl rfl nofun
          flag := { processing := nofun, stopping := h.flag.stopping, ended := fun _ => hended } }
  · rw [← some.inj hτ]
    exact h

/-- **Every step** keeps the invariant. -/
theorem step {op : State.Op} (hτ : σ.step op = some τ) : Inv τ := by
  have hmutex : ∀ {next : Option State}, σ.withSubmissionMutex next = some τ →
      (next = some τ → Inv τ) → Inv τ := by
    intro next hnext himp
    unfold withSubmissionMutex at hnext
    split_ifs at hnext
    · rw [← some.inj hnext]
      exact h
    · exact himp hnext
  cases op with
  | submit | submitFlipPreparation => exact hmutex hτ h.submit
  | submitCompute queue => exact hmutex hτ h.submitCompute
  | sendCommand => exact h.sendCommand hτ
  | doneBegin onGpu => exact some.inj hτ ▸ h.doneBegin onGpu
  | doneNext capturing => exact h.doneNext hτ
  | shutdown => exact some.inj hτ ▸ h.shutdown
  | gpu choice => exact h.gpu hτ

end

end Inv

/-! ## Runs -/

/-- What the schedule guarantees in every state. -/
structure Scheduled (σ : State) : Prop where
  count : σ.m_submission_count = ∑ q ∈ Finset.range QueueCount, (σ.m_queues q).length
  pending : σ.m_pending_commands = σ.m_commands.length
  /-- The submissions of a queue start and complete in their order, each at most once. -/
  started : ∀ q, σ.started q <+: σ.enqueued q
  completed : ∀ q, σ.completed q <+: σ.started q
  once : ∀ q, (σ.enqueued q).Nodup
  /-- One that was accepted is completed, or processed, or in its queue. -/
  accounted : ∀ q, σ.enqueued q = σ.completed q ++ (pendingList σ q).map Submission.id
  /-- The commands of other threads run in the order in which they were sent, each once. -/
  queued : queuedOnly σ.sent = queuedOnly σ.ran ++ σ.m_commands
  sent_once : σ.sent.Nodup
  /-- Those of the GPU thread run when they are sent. -/
  atOnce : inlineOnly σ.ran = inlineOnly σ.sent
  /-- When `WaitForIdle` may return, everything accepted is done, but for commands that the GPU
  thread runs for itself past its loop. -/
  idle : σ.busy = false → σ.pc.current = none ∧
    (∀ c ∈ σ.pc.commands, σ.pc.ended = true ∧ c.inline = true) ∧
    (∀ q, σ.completed q = σ.enqueued q) ∧ queuedOnly σ.ran = queuedOnly σ.sent ∧
    ∀ c ∈ σ.sent, c ∈ σ.finished ∨ c ∈ σ.pc.commands
  /-- When the GPU thread is past its loop, everything that other threads sent is done and nothing
  is accepted; when it has stopped, everything is done. -/
  stops : σ.pc.ended = true → σ.m_accepting = false ∧ (∀ q, σ.completed q = σ.enqueued q) ∧
    queuedOnly σ.ran = queuedOnly σ.sent ∧ (∀ c ∈ queuedOnly σ.sent, c ∈ σ.finished) ∧
    (σ.pc = .stopped → ∀ c ∈ σ.sent, c ∈ σ.finished)
  /-- No check of the GPU thread stops the process. -/
  goesOn : ∀ choice, σ.gpu choice ≠ none

theorem inv_init : Inv init where
  queue :=
    { count := by simp [init]
      queue_id := fun q s hs => by simp [init, pendingList, current] at hs
      current := fun s hs => by cases hs
      enqueued := fun q => rfl
      started := fun q => rfl
      tail := fun q => by simp [init, work, pendingList, current]
      increasing := fun q => by simp [init]
      below := fun q i hi => by simp [init] at hi }
  command :=
    { pending := rfl
      queued := rfl
      atOnce := rfl
      finished := fun c hc => by simp [init] at hc
      increasing := by simp [init]
      below := fun c hc => by simp [init] at hc
      draining := fun s hs => by cases hs }
  flag :=
    { processing := nofun
      stopping := nofun
      ended := fun he => by cases he }

theorem inv_run {ops : List State.Op} (h : run ops = some σ) : Inv σ := by
  have hinit := inv_init
  unfold run at h
  generalize init = before at h hinit
  induction ops generalizing before with
  | nil => exact some.inj h ▸ hinit
  | cons op ops ih =>
    obtain ⟨after, hafter, hrest⟩ := bind_eq_some_iff.mp h
    exact ih after hrest (hinit.step hafter)

namespace Inv

section

variable (h : Inv σ)

include h

theorem queues_empty (hcount : σ.m_submission_count = 0) (q : ℕ) : σ.m_queues q = [] := by
  by_contra hne
  obtain ⟨s, hs⟩ := exists_mem_of_ne_nil _ hne
  have hlt := (h.queue.queue_id q s (mem_append_right _ hs)).2
  have hle := Finset.single_le_sum (f := fun q => (σ.m_queues q).length)
    (fun _ _ => zero_le _) (Finset.mem_range.mpr hlt)
  rw [← h.queue.count, hcount] at hle
  exact hne (length_eq_zero_iff.mp (le_zero.mp hle))

theorem all_done (hcurrent : σ.pc.current = none) (hcount : σ.m_submission_count = 0)
    (hcommands : σ.m_commands = []) :
    (∀ q, σ.completed q = σ.enqueued q) ∧ queuedOnly σ.ran = queuedOnly σ.sent ∧
      ∀ c ∈ σ.sent, c ∈ σ.finished ∨ c ∈ σ.pc.commands := by
  have hran : queuedOnly σ.ran = queuedOnly σ.sent := by
    rw [h.command.queued, hcommands, append_nil]
  refine ⟨fun q => ?_, hran, fun c hc => ?_⟩
  · rw [h.queue.enqueued, work, pendingList, hcurrent, h.queues_empty hcount]
    simp
  · have hmem : c ∈ σ.ran := by
      cases hinline : c.inline with
      | true =>
        have := mem_filter.mpr ⟨hc, hinline⟩
        rw [← inlineOnly, h.command.atOnce] at this
        exact mem_of_mem_filter this
      | false =>
        have : c ∈ queuedOnly σ.sent := mem_filter.mpr ⟨hc, by rw [hinline]; rfl⟩
        rw [← hran] at this
        exact mem_of_mem_filter this
    exact h.command.finished c hmem

theorem started_work (q : ℕ) : (work σ q).filter Prod.snd <+: work σ q := by
  have htail := h.queue.tail q
  cases hwork : work σ q with
  | nil => exact nil_prefix
  | cons x rest =>
    rw [hwork, tail_cons] at htail
    have hrest : rest.filter Prod.snd = [] := by
      rw [filter_eq_nil_iff]
      intro y hy
      simp [htail y hy]
    rw [filter_cons, hrest]
    split
    · exact prefix_append [x] rest
    · exact nil_prefix

theorem takeCommand_ne_none (hcommands : σ.m_commands ≠ []) (next : Command → Pc) :
    σ.takeCommand next ≠ none := by
  have hpending := h.command.pending
  unfold State.takeCommand
  cases hlist : σ.m_commands with
  | nil => exact absurd hlist hcommands
  | cons c rest =>
    rw [hlist, length_cons] at hpending
    dsimp only
    rw [if_neg (by omega)]
    simp

theorem gpu_ne_none (choice : State.Choice) : σ.gpu choice ≠ none := by
  unfold State.gpu
  cases hpc : σ.pc with
  | top =>
    unfold State.selectWork
    split_ifs with hidle hstop hcommands
    · simp
    · simp
    · exact h.takeCommand_ne_none hcommands _
    · cases hselect : σ.selectQueue with
      | none => simp
      | some q =>
        -- the queue that was found is not empty
        have hfound := find?_some hselect
        cases hq : σ.m_queues q with
        | nil => simp [hq] at hfound
        | cons s rest => simp [hq]
  | resting => simp
  | running | processing | drainRunning => cases choice <;> simp
  | stopping inline => cases choice <;> cases inline <;> simp
  | draining s => exact h.takeCommand_ne_none (h.command.draining s hpc) _
  | stopped => simp

theorem scheduled : Scheduled σ where
  count := h.queue.count
  pending := h.command.pending
  started q := by
    rw [h.queue.started, h.queue.enqueued]
    exact (prefix_append_right_inj _).mpr ((h.started_work q).map _)
  completed q := by
    rw [h.queue.started]
    exact List.prefix_append _ _
  once q := (h.queue.increasing q).imp fun hlt => hlt.ne
  accounted q := by
    rw [h.queue.enqueued, work, List.map_map]
    rfl
  queued := h.command.queued
  sent_once := h.command.increasing.imp fun hlt heq => by
    rw [heq] at hlt
    exact lt_irrefl _ hlt
  atOnce := h.command.atOnce.symm
  idle hidle := by
    simp only [State.busy, Bool.or_eq_false_iff, Bool.not_eq_false', List.isEmpty_iff,
      bne_eq_false_iff_eq] at hidle
    obtain ⟨⟨hprocessing, hcommands⟩, hcount⟩ := hidle
    have hworking : σ.pc.working = false := by
      by_contra hp
      rw [h.flag.processing (Bool.not_eq_false _ ▸ hp)] at hprocessing
      cases hprocessing
    have hcurrent := (of_not_working hworking).1
    exact ⟨hcurrent, (of_not_working hworking).2, h.all_done hcurrent hcount hcommands⟩
  stops hended := by
    obtain ⟨hstopping, hcommands, hcount⟩ := h.flag.ended hended
    obtain ⟨hcurrent, hinline⟩ := of_not_working (not_working_of_ended hended)
    obtain ⟨hcompleted, hran, hfinished⟩ := h.all_done hcurrent hcount hcommands
    refine ⟨h.flag.stopping hstopping, hcompleted, hran, fun c hc => ?_, fun hpc c hc => ?_⟩
    · have hqueued := mem_filter.mp hc
      refine (hfinished c hqueued.1).resolve_right fun hmem => ?_
      simp [(hinline c hmem).2] at hqueued
    · refine (hfinished c hc).resolve_right fun hmem => ?_
      rw [hpc] at hmem
      cases hmem
  goesOn := h.gpu_ne_none

end

end Inv

/-- **The schedule of the GPU thread.** What was accepted is worked on in order and once, the
counters are right, and neither `WaitForIdle` nor the thread ends before the work does. -/
theorem guestGpu_schedule (ops : List State.Op) (h : State.run ops = some σ) : Scheduled σ :=
  (inv_run h).scheduled

/-- A submission of queue 0 comes back blocked and lets one of another queue go first; a command of
another thread comes between them, and one of the GPU thread. -/
def blockedFirst : List State.Op :=
  [.submit, .submitCompute 0x20, .gpu (.finish true), .gpu (.finish false), .sendCommand,
    .gpu (.finish true), .gpu (.finish true), .gpu (.finish true), .gpu .sendCommand,
    .gpu (.finish true), .gpu (.finish true), .gpu (.finish true)]

theorem guestGpu_schedule_blocked : ∃ σ, State.run blockedFirst = some σ ∧
    (σ.completed 0, σ.completed 1, σ.finished.map Command.id) = ([0], [1], [2, 3]) ∧ Scheduled σ :=
  ⟨_, rfl, rfl, guestGpu_schedule blockedFirst rfl⟩

/-- **A command of the GPU thread** overtakes the one that is in the queue, and past its loop
`WaitForIdle` returns while the command runs. -/
theorem inline_overtakes : (¬ ∀ ops σ, State.run ops = some σ → σ.ran <+: σ.sent) ∧
    ∃ ops σ, State.run ops = some σ ∧ σ.done = some (false, .capture) ∧
      ∃ c ∈ σ.sent, c ∉ σ.finished := by
  constructor
  · intro h
    have hprefix := h [.submit, .gpu (.finish true), .sendCommand, .gpu .sendCommand] _ rfl
    exact nomatch hprefix
  · exact ⟨[.shutdown, .gpu (.finish true), .gpu .sendCommand, .doneBegin false, .doneNext true], _,
      rfl, rfl, ⟨0, true⟩, by decide, by decide⟩

end MagnusPS5.Graphics.GuestGpu
