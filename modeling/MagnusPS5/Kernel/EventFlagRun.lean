/-
Draining an event flag over all interleavings.

A drain signals every thread that sleeps when it starts. As long as no thread goes to
sleep during a drain, all threads a drain waits for have been signalled and leave with
their next step; a thread that does go to sleep then has missed the signal, because `Wait`
does not look at the status before it sleeps. `eventFlag_drains` says that nothing else
can go wrong.
-/
import MagnusPS5.Kernel.EventFlag
import Mathlib.Data.List.Nodup

namespace MagnusPS5.Kernel.EventFlag

namespace KernelEventFlagPrivate

open List Waiter Inv KernelEventFlagPrivate

/-! ## What is claimed of a state -/

/-- The next step of every thread in `Wait`, in the order of the list. -/
def wakeAll (σ : KernelEventFlagPrivate) : List Waiter → KernelEventFlagPrivate
  | [] => σ
  | waiter :: waiters => wakeAll (σ.resume waiter.call 0) waiters

/-- **What holds in every state of a good run.** The count is the number of threads in
`Wait`; during a drain each of them has been signalled and leaves with its next step,
after which the count is 0. -/
structure Drains (σ : KernelEventFlagPrivate) : Prop where
  count : σ.m_waiting_threads = σ.sleeping.length
  signalled : σ.m_status ≠ .set → ∀ waiter ∈ σ.sleeping, waiter.signalled = true
  leaves : σ.m_status ≠ .set → ∀ waiter ∈ σ.sleeping, ∀ elapsed,
    (σ.resume waiter.call elapsed).m_waiting_threads = σ.m_waiting_threads - 1 ∧
      ∀ w ∈ (σ.resume waiter.call elapsed).sleeping, w.call ≠ waiter.call
  reaches_zero : σ.m_status ≠ .set → (σ.wakeAll σ.sleeping).m_waiting_threads = 0

/-! ## The invariant -/

structure Inv (σ : KernelEventFlagPrivate) : Prop where
  count : σ.m_waiting_threads = σ.sleeping.length
  nodup : (σ.sleeping.map Waiter.call).Nodup
  calls_lt : ∀ waiter ∈ σ.sleeping, waiter.call < σ.calls
  signalled : σ.m_status ≠ .set → ∀ waiter ∈ σ.sleeping, waiter.signalled = true

theorem inv_new (single : Bool) (bits : BitVec 64) : Inv (new single bits) where
  count := rfl
  nodup := nodup_nil
  calls_lt := nofun
  signalled := fun _ _ hw => nomatch hw

/-! ## Leaving the list of sleeping threads -/

theorem eraseP_call_sublist (call : ℕ) (waiters : List Waiter) :
    (waiters.eraseP (fun waiter => waiter.call = call)).Sublist waiters :=
  eraseP_sublist

theorem ne_of_mem_eraseP {call : ℕ} {waiters : List Waiter}
    (hnodup : (waiters.map Waiter.call).Nodup) :
    ∀ w ∈ waiters.eraseP (fun waiter => waiter.call = call), w.call ≠ call := by
  induction waiters with
  | nil => exact nofun
  | cons waiter rest ih =>
    rw [map_cons, nodup_cons] at hnodup
    intro w hw
    by_cases hcall : waiter.call = call
    · rw [eraseP_cons_of_pos (by simpa using hcall)] at hw
      intro heq
      exact hnodup.1 (hcall.trans heq.symm ▸ mem_map_of_mem hw)
    · rw [eraseP_cons_of_neg (by simpa using hcall), mem_cons] at hw
      obtain rfl | hw := hw
      · exact hcall
      · exact ih hnodup.2 w hw

variable {σ : KernelEventFlagPrivate} {waiter : Waiter}

theorem find?_call (hmem : waiter ∈ σ.sleeping) (hnodup : (σ.sleeping.map call).Nodup) :
    σ.sleeping.find? (fun w => w.call = waiter.call) = some waiter := by
  have hsome : (σ.sleeping.find? (fun w => w.call = waiter.call)).isSome :=
    find?_isSome.mpr ⟨waiter, hmem, by simp⟩
  obtain ⟨w, hw⟩ := Option.isSome_iff_exists.mp hsome
  have hcall : w.call = waiter.call := by
    have := find?_some hw
    simpa using this
  rw [hw, inj_on_of_nodup_map hnodup (mem_of_find?_eq_some hw) hmem hcall]

/-- The flag after a sleeping thread has left. -/
def left (σ : KernelEventFlagPrivate) (call : ℕ) : KernelEventFlagPrivate :=
  { σ with
    m_waiting_threads := σ.m_waiting_threads - 1
    sleeping := σ.sleeping.eraseP (fun waiter => waiter.call = call) }

theorem Inv.left (h : Inv σ) (hmem : waiter ∈ σ.sleeping) : Inv (σ.left waiter.call) where
  count := by
    show σ.m_waiting_threads - 1 = _
    have hlen := length_eraseP_of_mem (p := fun w : Waiter => w.call = waiter.call) hmem (by simp)
    have hpos := length_pos_of_mem hmem
    have hcount := h.count
    unfold KernelEventFlagPrivate.left
    rw [hlen]
    omega
  nodup := ((eraseP_call_sublist _ _).map _).nodup h.nodup
  calls_lt := fun w hw => h.calls_lt w ((eraseP_call_sublist _ _).subset hw)
  signalled := fun hs w hw => h.signalled hs w ((eraseP_call_sublist _ _).subset hw)

theorem resume_some {call : ℕ}
    (hfind : σ.sleeping.find? (fun waiter => waiter.call = call) = some waiter) (elapsed : ℕ) :
    σ.resume call elapsed =
      match (σ.left call).m_status with
      | .canceled => (σ.left call).ret call .canceled (updateTimeout elapsed waiter.micros)
      | .deleted => (σ.left call).ret call .deleted (updateTimeout elapsed waiter.micros)
      | .set => (σ.left call).waitLoop waiter elapsed := by
  unfold resume
  rw [hfind]
  rfl

theorem resume_of_drain (h : Inv σ) (hs : σ.m_status ≠ .set)
    (hmem : waiter ∈ σ.sleeping) (elapsed : ℕ) : ∃ result, σ.resume waiter.call elapsed =
      (σ.left waiter.call).ret waiter.call result (updateTimeout elapsed waiter.micros) := by
  rw [resume_some (find?_call hmem h.nodup)]
  cases hstatus : (σ.left waiter.call).m_status with
  | set => exact absurd hstatus hs
  | canceled => exact ⟨.canceled, rfl⟩
  | deleted => exact ⟨.deleted, rfl⟩

theorem Inv.ret (h : Inv σ) (call : ℕ) (result : Result)
    (micros : Option ℕ) : Inv (σ.ret call result micros) :=
  { h with }

theorem wakeAll_of_drain (h : Inv σ) (hs : σ.m_status ≠ .set) :
    ∀ waiters, σ.sleeping = waiters → (σ.wakeAll waiters).m_waiting_threads = 0 := by
  intro waiters
  induction waiters generalizing σ with
  | nil =>
    intro hnil
    have hcount := h.count
    rw [hnil] at hcount
    exact hcount
  | cons waiter rest ih =>
    intro hcons
    have hmem : waiter ∈ σ.sleeping := hcons ▸ .head _
    obtain ⟨result, heq⟩ := resume_of_drain h hs hmem 0
    unfold wakeAll
    rw [heq]
    apply ih ((h.left hmem).ret _ _ _) hs
    show σ.sleeping.eraseP (fun w => w.call = waiter.call) = rest
    rw [hcons, eraseP_cons_of_pos (by simp)]

theorem Inv.drains (h : Inv σ) : Drains σ where
  count := h.count
  signalled := h.signalled
  leaves := by
    intro hs waiter hmem elapsed
    obtain ⟨result, heq⟩ := resume_of_drain h hs hmem elapsed
    rw [heq]
    exact ⟨rfl, ne_of_mem_eraseP h.nodup⟩
  reaches_zero := fun hs => wakeAll_of_drain h hs _ rfl

/-! ## Steps -/

/-- A call of `Wait` goes to sleep: it does not return at once. -/
def Sleeps (σ : KernelEventFlagPrivate) (bits : BitVec 64) (wait_mode : WaitMode)
    (ptr_micros : Option ℕ) : Prop :=
  ¬ (σ.m_single_thread = true ∧ 0 < σ.m_waiting_threads) ∧
    satisfied σ.m_bits bits wait_mode = false ∧ expired 0 ptr_micros = false

/-- What a step has to meet: no call of `Wait` goes to sleep during a drain. -/
def Fits (σ : KernelEventFlagPrivate) : Op → Prop
  | .wait bits wait_mode _ ptr_micros =>
    σ.m_status = .set ∨ ¬ σ.Sleeps bits wait_mode ptr_micros
  | _ => True

/-- Every step of a run meets it. -/
def RunFits : KernelEventFlagPrivate → List Op → Prop
  | _, [] => True
  | σ, op :: ops => σ.Fits op ∧ ∀ σ', σ.step op = some σ' → RunFits σ' ops

theorem Inv.signalAll (count : σ.m_waiting_threads = σ.sleeping.length)
    (nodup : (σ.sleeping.map call).Nodup)
    (calls_lt : ∀ waiter ∈ σ.sleeping, waiter.call < σ.calls) : Inv σ.signalAll where
  count := by
    show σ.m_waiting_threads = ((σ.sleeping.map _).length : ℤ)
    rw [length_map]
    exact count
  nodup := by
    show ((σ.sleeping.map _).map call).Nodup
    rw [map_map]
    exact nodup
  calls_lt := by
    intro w hw
    obtain ⟨v, hv, rfl⟩ := mem_map.mp hw
    exact calls_lt v hv
  signalled := by
    intro _ w hw
    obtain ⟨v, _, rfl⟩ := mem_map.mp hw
    rfl

/-- The loop of `Wait` adds a sleeping thread only when it neither is satisfied nor has
run out of time. -/
theorem Inv.waitLoop (h : Inv σ) (elapsed : ℕ)
    (hlt : waiter.call < σ.calls) (hnew : waiter.call ∉ σ.sleeping.map call)
    (hstays : σ.m_status = .set ∨ satisfied σ.m_bits waiter.bits waiter.wait_mode = true ∨
      expired elapsed waiter.micros = true) : Inv (σ.waitLoop waiter elapsed) := by
  unfold KernelEventFlagPrivate.waitLoop
  by_cases hsat : satisfied σ.m_bits waiter.bits waiter.wait_mode = true
  · rw [if_pos hsat]
    exact { h with }
  rw [if_neg hsat]
  by_cases hexp : expired elapsed waiter.micros = true
  · rw [if_pos hexp]
    exact h.ret _ _ _
  rw [if_neg hexp]
  have hset : σ.m_status = .set := by
    obtain hs | hs | hs := hstays
    · exact hs
    · exact absurd hs hsat
    · exact absurd hs hexp
  exact
    { count := by
        show σ.m_waiting_threads + 1 = ((σ.sleeping.length + 1 : ℕ) : ℤ)
        have hcount := h.count
        omega
      nodup := nodup_cons.mpr ⟨hnew, h.nodup⟩
      calls_lt := by
        intro w hw
        obtain rfl | hw := mem_cons.mp hw
        · exact hlt
        · exact h.calls_lt w hw
      signalled := fun hs => absurd hset hs }

variable {wait_mode : WaitMode} {ptr_micros : Option ℕ}

theorem Inv.wait (h : Inv σ) {bits : BitVec 64} (clear_mode : ClearMode)
    (hfits : σ.m_status = .set ∨ ¬ σ.Sleeps bits wait_mode ptr_micros) :
    Inv (σ.wait bits wait_mode clear_mode ptr_micros) := by
  have hnew : Inv { σ with calls := σ.calls + 1 } :=
    { h with calls_lt := fun w hw => (h.calls_lt w hw).trans (Nat.lt_succ_self _) }
  unfold KernelEventFlagPrivate.wait
  by_cases hsingle : σ.m_single_thread = true ∧ 0 < σ.m_waiting_threads
  · rw [if_pos hsingle]
    exact { hnew with }
  rw [if_neg hsingle]
  apply hnew.waitLoop 0 (Nat.lt_succ_self _)
  · intro hmem
    obtain ⟨w, hw, heq⟩ := mem_map.mp hmem
    exact (h.calls_lt w hw).ne heq
  · obtain hs | hs := hfits
    · exact .inl hs
    · by_cases hsat : satisfied σ.m_bits bits wait_mode = true
      · exact .inr (.inl hsat)
      · refine .inr (.inr ?_)
        by_contra hexp
        exact hs ⟨hsingle, Bool.eq_false_of_not_eq_true hsat, Bool.eq_false_of_not_eq_true hexp⟩

theorem Inv.resume (h : Inv σ) (call elapsed : ℕ) : Inv (σ.resume call elapsed) := by
  cases hfind : σ.sleeping.find? (fun waiter => waiter.call = call) with
  | none =>
    unfold KernelEventFlagPrivate.resume
    rw [hfind]
    exact h
  | some waiter =>
    have hmem := mem_of_find?_eq_some hfind
    have hcall : waiter.call = call := by
      have := find?_some hfind
      simpa using this
    subst hcall
    have hleft := h.left hmem
    by_cases hs : σ.m_status = .set
    · have hs' : (σ.left waiter.call).m_status = .set := hs
      rw [resume_some hfind, hs']
      apply hleft.waitLoop elapsed (h.calls_lt waiter hmem) _ (.inl hs)
      intro hin
      obtain ⟨w, hw, heq⟩ := mem_map.mp hin
      exact ne_of_mem_eraseP h.nodup w hw heq
    · obtain ⟨result, heq⟩ := resume_of_drain h hs hmem elapsed
      rw [heq]
      exact hleft.ret _ _ _

/-- `Set`, `Clear` and `Cancel` keep the invariant: a drain starts with a signal to
everyone. -/
theorem Inv.perform (h : Inv σ) (call : Call) : Inv (σ.perform call) := by
  cases call with
  | set | cancel => exact signalAll h.count h.nodup h.calls_lt
  | clear bits => exact { h with }

theorem Inv.step {σ σ' : KernelEventFlagPrivate} (h : Inv σ) {op : Op} (hfits : σ.Fits op)
    (hstep : σ.step op = some σ') : Inv σ' := by
  cases op with
  | wait bits wait_mode clear_mode ptr_micros =>
    cases hstep
    exact h.wait clear_mode hfits
  | resume call elapsed =>
    cases hstep
    exact h.resume call elapsed
  | enter call =>
    unfold KernelEventFlagPrivate.step enter at hstep
    dsimp only at hstep
    split at hstep
    · cases hstep
    · cases hstep
      exact { h with }
    · cases hstep
      exact h.perform call
  | retry i =>
    cases hstep
    unfold retry
    split
    · have hrest : Inv { σ with spinning := σ.spinning.eraseIdx i } := { h with }
      exact hrest.perform _
    · exact h
  | poll =>
    cases hstep
    unfold poll
    split
    · exact { h with signalled := fun hs => absurd rfl hs }
    · exact h
  | delete =>
    cases hstep
    unfold delete
    split
    · exact signalAll h.count h.nodup h.calls_lt
    · exact h

/-! ## Runs -/

theorem not_signalled_of_sleeps {bits : BitVec 64} (clear_mode : ClearMode)
    (hs : σ.m_status ≠ .set) (hsleeps : σ.Sleeps bits wait_mode ptr_micros) :
    ¬ Drains (σ.wait bits wait_mode clear_mode ptr_micros) := by
  obtain ⟨hsingle, hsat, hexp⟩ := hsleeps
  intro hdrains
  unfold wait waitLoop at hdrains
  rw [if_neg hsingle, if_neg (by rw [hsat]; decide), if_neg (by rw [hexp]; decide)] at hdrains
  have hnew := hdrains.signalled hs _ mem_cons_self
  exact absurd hnew (by simp)

/-- **Draining an event flag.** In every state of a run the count of waiting threads is
right and every drain ends, with all threads it waits for signalled, if and only if no call
of `Wait` goes to sleep during a drain. -/
theorem eventFlag_drains (single : Bool) (bits : BitVec 64) (ops : List Op) :
    (∀ ops' σ, ops' <+: ops → (new single bits).run ops' = some σ → Drains σ) ↔
      (new single bits).RunFits ops := by
  suffices hall : ∀ σ : KernelEventFlagPrivate, Inv σ →
      ((∀ ops' σ', ops' <+: ops → σ.run ops' = some σ' → Drains σ') ↔ σ.RunFits ops) from
    hall _ (inv_new single bits)
  intro σ hinv
  induction ops generalizing σ with
  | nil =>
    refine ⟨fun _ => trivial, fun _ ops' σ' hpre hrun => ?_⟩
    rw [List.prefix_nil.mp hpre] at hrun
    cases hrun
    exact hinv.drains
  | cons op ops ih =>
    constructor
    · intro hdrains
      have hfits : σ.Fits op := by
        cases op with
        | wait bits wait_mode clear_mode ptr_micros =>
          by_cases hs : σ.m_status = .set
          · exact .inl hs
          · refine .inr fun hsleeps => ?_
            exact not_signalled_of_sleeps clear_mode hs hsleeps
              (hdrains [.wait bits wait_mode clear_mode ptr_micros] _ ⟨ops, rfl⟩ rfl)
        | _ => trivial
      refine ⟨hfits, fun σ' hstep => (ih _ (hinv.step hfits hstep)).mp ?_⟩
      intro ops' σ'' hpre hrun
      refine hdrains (op :: ops') σ'' (List.cons_prefix_cons.mpr ⟨rfl, hpre⟩) ?_
      show (σ.step op).bind (fun σ => run σ ops') = some σ''
      rw [hstep]
      exact hrun
    · intro hfits ops' σ' hpre hrun
      cases ops' with
      | nil =>
        cases hrun
        exact hinv.drains
      | cons op' ops' =>
        obtain ⟨rfl, hrest⟩ := List.cons_prefix_cons.mp hpre
        obtain ⟨σ'', hstep, hrun'⟩ := Option.bind_eq_some_iff.mp hrun
        exact (ih _ (hinv.step hfits.1 hstep)).mpr (hfits.2 _ hstep) ops' σ' hrest hrun'

/-- A thread that calls `Wait` while `Cancel` polls the count goes to sleep without a
signal, and `Cancel` waits for it. -/
theorem eventFlag_wait_in_drain :
    ∃ σ, (new false 0).run [.wait 1 .and .none none, .enter (.cancel 0), .wait 1 .and .none none,
        .resume 0 0, .poll] = some σ ∧
      σ.m_status = .canceled ∧ σ.m_waiting_threads = 1 ∧
      σ.sleeping = [⟨1, 1, .and, .none, none, false⟩] ∧ ¬ Drains σ := by
  refine ⟨_, rfl, by decide, by decide, by decide, fun h => ?_⟩
  have hsignalled := h.signalled (by decide) _ List.mem_cons_self
  exact absurd hsignalled (by decide)

end KernelEventFlagPrivate

end MagnusPS5.Kernel.EventFlag
