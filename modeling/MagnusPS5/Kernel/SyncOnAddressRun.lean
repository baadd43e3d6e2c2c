/-
Waiting on addresses over all interleavings: no wake-up is lost, none goes to a call that
reports a timeout, and no entry disappears while a call works with it.

The invariant reads the mutexes a call holds and the entry it works with off its program
counter. Each operation on the state has one lemma that says when it keeps the invariant;
the steps are put together from these.
-/
import MagnusPS5.Kernel.SyncOnAddress

namespace MagnusPS5.Kernel.SyncOnAddress

open List Option BitVec Function Nat
open Function (update)
open Inv Pc State

/-! ## What a program counter says -/

namespace Pc

/-- The call has the mutex of the registry. -/
def holdsRegistry : Pc → Bool
  | lookup | lock _ | link _ | emptiedLock _ _ | remove _ _ | wakeLookup | wakeLock _
  | wakeUnlock _ => true
  | _ => false

/-- The call has the mutex of this entry. -/
def holdsEntry : Pc → Option ℕ
  | link e | loop e | woken e | recheck e | unlink e _ | remove e _ | wakeUnlock e
  | select e => some e
  | _ => none

/-- The waiter of the call is linked in this entry. -/
def linked : Pc → Option ℕ
  | loop e | asleep e | woken e | polling e | recheck e | unlink e _ => some e
  | _ => none

/-- The call has looked this entry up and still works with it: it is going to link its
waiter, its waiter is linked, or it is going to select waiters. -/
def uses : Pc → Option ℕ
  | lock e | link e | loop e | asleep e | woken e | polling e | recheck e | unlink e _
  | wakeLock e | wakeUnlock e | select e => some e
  | _ => none

/-- The call is blocked in its wait. -/
def blocked : Pc → Option ℕ
  | asleep e | woken e | polling e => some e
  | _ => none

/-- The call reports a timeout, now or when it returns. -/
def timedOut : Pc → Bool
  | unlink _ .timedOut | emptied _ .timedOut | emptiedLock _ .timedOut | remove _ .timedOut
  | returned .timedOut => true
  | _ => false

/-- The call is a wake that is not over. -/
def waking : Pc → Bool
  | wake | wakeLookup | wakeLock _ | wakeUnlock _ | select _ => true
  | _ => false

variable {k : Pc} {e : ℕ}

theorem of_uses (h : k.uses = some e) :
    k.holdsRegistry = true ∨ k.holdsEntry = some e ∨ k.linked = some e := by
  cases k <;> simp_all [uses, holdsRegistry, holdsEntry, linked]

theorem uses_of_linked (h : k.linked = some e) : k.uses = some e := by
  cases k <;> simp_all [uses, linked]

theorem linked_of_blocked (h : k.blocked = some e) : k.linked = some e := by
  cases k <;> simp_all [blocked, linked]

theorem holdsEntry_of_timedOut (h : k.timedOut = true) (hl : k.linked = some e) :
    k.holdsEntry = some e := by
  cases k <;> simp_all [timedOut, holdsEntry, linked]

/-- `k` says nothing that `k₀` does not say, and has the same waiter linked. -/
def Within (k k₀ : Pc) : Prop :=
  (k.holdsRegistry = true → k₀.holdsRegistry = true) ∧
    (k.holdsEntry = none ∨ k.holdsEntry = k₀.holdsEntry) ∧ (k.uses = none ∨ k.uses = k₀.uses) ∧
    k.linked = k₀.linked ∧ (k.waking = true → k₀.waking = true)

end Pc

namespace State

/-! ## The invariant -/

structure Inv (σ : State) : Prop where
  registry_owner : ∀ p, (σ.pc p).holdsRegistry = true → σ.registryOwner = some p
  entry_owner : ∀ p e, (σ.pc p).holdsEntry = some e → σ.entryOwner e = some p
  uses : ∀ p e, (σ.pc p).uses = some e → σ.registry (σ.call p).address = some e
  linked : ∀ p e, (σ.pc p).linked = some e ↔ p ∈ σ.waiters e
  timedOut : ∀ p, (σ.pc p).timedOut = true → σ.wakeRequested p = false
  fifo : ∀ e, (σ.waiters e).Pairwise (fun p q => σ.ticket p < σ.ticket q)
  ticket_lt : ∀ e, ∀ p ∈ σ.waiters e, σ.ticket p < σ.nextTicket
  count_pos : ∀ p, (σ.pc p).waking = true → 0 < count (σ.call p)

variable {σ : State} {p e : ℕ} {k : Pc}

theorem inv_init (memory : ℕ → ℕ) : Inv (init memory) where
  registry_owner := fun _ h => by cases h
  entry_owner := fun _ _ h => by cases h
  uses := fun _ _ h => by cases h
  linked := by
    intro p e
    constructor
    · intro h
      cases h
    · intro h
      nomatch h
  timedOut := fun _ h => by cases h
  fifo := fun _ => .nil
  ticket_lt := fun _ _ h => nomatch h
  count_pos := fun _ h => by cases h

@[simp] theorem pc_goto_self (σ : State) (p : ℕ) (k : Pc) : (σ.goto p k).pc p = k := by
  exact update_self _ _ _

variable {q address n : ℕ}

theorem pc_goto_of_ne (σ : State) (k : Pc) (h : q ≠ p) : (σ.goto p k).pc q = σ.pc q := by
  exact update_of_ne h _ _

section

variable (h : Inv σ)

include h

section

variable (hreg : k.holdsRegistry = true → σ.registryOwner = some p)
  (hent : ∀ e, k.holdsEntry = some e → σ.entryOwner e = some p)
  (huse : ∀ e, k.uses = some e → σ.registry (σ.call p).address = some e)

include hreg hent huse

/-- A thread goes on, and the waiters that are linked may change. -/
theorem Inv.relink {waiters : ℕ → List ℕ} {ticket : ℕ → ℕ} {nextTicket : ℕ}
    (hself : ∀ e, k.linked = some e ↔ p ∈ waiters e)
    (hother : ∀ q e, q ≠ p → (q ∈ σ.waiters e ↔ q ∈ waiters e))
    (htime : k.timedOut = true → σ.wakeRequested p = false)
    (hwake : k.waking = true → 0 < count (σ.call p))
    (hfifo : ∀ e, (waiters e).Pairwise fun q r => ticket q < ticket r)
    (hlt : ∀ e, ∀ q ∈ waiters e, ticket q < nextTicket) :
    Inv ({ σ with waiters, ticket, nextTicket }.goto p k) where
  registry_owner q hq := by
    by_cases hqp : q = p
    · subst hqp
      rw [pc_goto_self] at hq
      exact hreg hq
    · rw [pc_goto_of_ne _ k hqp] at hq
      exact h.registry_owner q hq
  entry_owner q e hq := by
    by_cases hqp : q = p
    · subst hqp
      rw [pc_goto_self] at hq
      exact hent e hq
    · rw [pc_goto_of_ne _ k hqp] at hq
      exact h.entry_owner q e hq
  uses q e hq := by
    by_cases hqp : q = p
    · subst hqp
      rw [pc_goto_self] at hq
      exact huse e hq
    · rw [pc_goto_of_ne _ k hqp] at hq
      exact h.uses q e hq
  linked q e := by
    by_cases hqp : q = p
    · subst hqp
      rw [pc_goto_self]
      exact hself e
    · rw [pc_goto_of_ne _ k hqp]
      exact (h.linked q e).trans (hother q e hqp)
  timedOut q hq := by
    by_cases hqp : q = p
    · subst hqp
      rw [pc_goto_self] at hq
      exact htime hq
    · rw [pc_goto_of_ne _ k hqp] at hq
      exact h.timedOut q hq
  fifo := hfifo
  ticket_lt := hlt
  count_pos q hq := by
    by_cases hqp : q = p
    · subst hqp
      rw [pc_goto_self] at hq
      exact hwake hq
    · rw [pc_goto_of_ne _ k hqp] at hq
      exact h.count_pos q hq

theorem Inv.goto (hlink : k.linked = (σ.pc p).linked)
    (htime : k.timedOut = true → σ.wakeRequested p = false)
    (hwake : k.waking = true → 0 < count (σ.call p)) : Inv (σ.goto p k) :=
  h.relink hreg hent huse (fun e => hlink ▸ h.linked p e) (fun _ _ _ => .rfl) htime hwake h.fifo
    h.ticket_lt

end

/-! ## The mutexes -/

theorem Inv.lockRegistry (hfree : σ.registryOwner = none) (p : ℕ) : Inv (σ.lockRegistry p) :=
  { h with
    registry_owner := fun q hq => by
      have hown := h.registry_owner q hq
      rw [hfree] at hown
      cases hown }

theorem Inv.unlockRegistry (hown : σ.registryOwner = some p)
    (hp : (σ.pc p).holdsRegistry = false) : Inv σ.unlockRegistry :=
  { h with
    registry_owner := fun q hq => by
      have hq' : (σ.pc q).holdsRegistry = true := hq
      have howner := h.registry_owner q hq'
      rw [hown, some.injEq] at howner
      rw [← howner, hp] at hq'
      cases hq' }

theorem Inv.lockEntry (hfree : σ.entryOwner e = none) (p : ℕ) : Inv (σ.lockEntry e p) :=
  { h with
    entry_owner := fun q e' hq => by
      have hown := h.entry_owner q e' hq
      have hne : e' ≠ e := by
        rintro rfl
        rw [hfree] at hown
        cases hown
      show update σ.entryOwner e (some p) e' = some q
      rw [update_of_ne hne]
      exact hown }

theorem Inv.unlockEntry (hown : σ.entryOwner e = some p)
    (hp : (σ.pc p).holdsEntry = none) : Inv (σ.unlockEntry e) :=
  { h with
    entry_owner := fun q e' hq => by
      have hq' : (σ.pc q).holdsEntry = some e' := hq
      have howner := h.entry_owner q e' hq'
      have hne : e' ≠ e := by
        rintro rfl
        rw [hown, some.injEq] at howner
        rw [← howner, hp] at hq'
        cases hq'
      show update σ.entryOwner e none e' = some q
      rw [update_of_ne hne]
      exact howner }

/-! ## The entries -/

theorem Inv.create (hnone : σ.registry address = none) : Inv (σ.create address) :=
  { h with
    uses := fun q e hq => by
      have huse := h.uses q e hq
      have hne : (σ.call q).address ≠ address := by
        intro heq
        rw [heq, hnone] at huse
        cases huse
      show update σ.registry address (some σ.nextEntry) (σ.call q).address = some e
      rw [update_of_ne hne]
      exact huse }

theorem Inv.not_uses (hreg : (σ.pc p).holdsRegistry = true)
    (hent : (σ.pc p).holdsEntry = some e) (hp : (σ.pc p).uses = none)
    (hempty : σ.waiters e = []) (q : ℕ) : (σ.pc q).uses ≠ some e := by
  intro hq
  have hsame : p = q := by
    obtain hr | he | hl := of_uses hq
    · exact some.inj ((h.registry_owner p hreg).symm.trans (h.registry_owner q hr))
    · exact some.inj ((h.entry_owner p e hent).symm.trans (h.entry_owner q e he))
    · have hmem := (h.linked q e).mp hl
      rw [hempty] at hmem
      nomatch hmem
  rw [← hsame, hp] at hq
  cases hq

theorem Inv.erase (hreg : σ.registry address = some e)
    (hnone : ∀ q, (σ.pc q).uses ≠ some e) : Inv (σ.erase address) :=
  { h with
    uses := fun q e' hq => by
      have huse := h.uses q e' hq
      have hne : (σ.call q).address ≠ address := by
        intro heq
        rw [heq, hreg, some.injEq] at huse
        exact hnone q (huse ▸ hq)
      show update σ.registry address none (σ.call q).address = some e'
      rw [update_of_ne hne]
      exact huse }

/-! ## The waiters -/

theorem Inv.link (hp : σ.pc p = .link e) : Inv ((σ.linkWaiter e p).goto p (.loop e)) := by
  have hout : ∀ e', p ∉ σ.waiters e' := by
    intro e' hmem
    have hl := (h.linked p e').mpr hmem
    rw [hp] at hl
    cases hl
  have hticket : ∀ e', ∀ q ∈ σ.waiters e', update σ.ticket p σ.nextTicket q = σ.ticket q := by
    intro e' q hq
    apply update_of_ne
    rintro rfl
    exact hout e' hq
  have hfifo : ∀ e', (σ.waiters e').Pairwise (fun q r =>
      update σ.ticket p σ.nextTicket q < update σ.ticket p σ.nextTicket r) := by
    intro e'
    apply (h.fifo e').imp_of_mem
    intro q r hq hr hlt
    rwa [hticket e' q hq, hticket e' r hr]
  apply h.relink (fun _ => h.registry_owner p (by rw [hp]; rfl))
    (fun e' hk => h.entry_owner p e' (by rw [hp]; exact hk))
    (fun e' hk => h.uses p e' (by rw [hp]; exact hk)) _ _ (fun hk => by cases hk)
    (fun hk => by cases hk)
  · intro e'
    by_cases hee : e' = e
    · subst hee
      rw [update_self, pairwise_append]
      refine ⟨hfifo e', pairwise_singleton _ _, ?_⟩
      intro q hq r hr
      rw [mem_singleton] at hr
      subst hr
      rw [hticket e' q hq, update_self]
      exact h.ticket_lt e' q hq
    · rw [update_of_ne hee]
      exact hfifo e'
  · intro e' q hq
    by_cases hqp : q = p
    · subst hqp
      rw [update_self]
      exact lt_succ_self _
    · have hold : q ∈ σ.waiters e' := by
        by_cases hee : e' = e
        · subst hee
          rw [update_self, mem_append, mem_singleton] at hq
          exact hq.resolve_right hqp
        · rwa [update_of_ne hee] at hq
      rw [hticket e' q hold]
      exact lt_succ_of_lt (h.ticket_lt e' q hold)
  · intro e'
    by_cases hee : e' = e
    · subst hee
      rw [update_self, mem_append, mem_singleton]
      exact ⟨fun _ => .inr rfl, fun _ => rfl⟩
    · rw [update_of_ne hee]
      exact ⟨fun hl => absurd (some.inj hl).symm hee, fun hmem => absurd hmem (hout e')⟩
  · intro q e' hqp
    by_cases hee : e' = e
    · subst hee
      rw [update_self, mem_append, mem_singleton]
      exact ⟨.inl, fun hq => hq.resolve_right hqp⟩
    · rw [update_of_ne hee]

end

theorem mem_unlinkWaiter {e' : ℕ} :
    q ∈ (σ.unlinkWaiter e p).waiters e' ↔ q ∈ σ.waiters e' ∧ (e' = e → q ≠ p) := by
  show q ∈ update σ.waiters e _ e' ↔ _
  by_cases hee : e' = e
  · subst hee
    rw [update_self, mem_filter, decide_eq_true_eq]
    exact and_congr_right' ⟨fun hne _ => hne, fun hne => hne rfl⟩
  · rw [update_of_ne hee]
    exact ⟨fun hq => ⟨hq, fun heq => absurd heq hee⟩, fun hq => hq.1⟩

variable {result : Result} {memory : ℕ → ℕ} {expired : Bool}

theorem Inv.unlink (h : Inv σ) (hp : σ.pc p = .unlink e result)
    (hk : k.holdsRegistry = false ∧ k.holdsEntry = none ∧ k.uses = none ∧ k.linked = none ∧
      k.waking = false)
    (htime : k.timedOut = (σ.pc p).timedOut) : Inv ((σ.unlinkWaiter e p).goto p k) := by
  have hsub : ∀ e', ((σ.unlinkWaiter e p).waiters e').Sublist (σ.waiters e') := by
    intro e'
    show (update σ.waiters e _ e').Sublist _
    by_cases hee : e' = e
    · subst hee
      rw [update_self]
      exact filter_sublist
    · rw [update_of_ne hee]
  apply h.relink (fun hq => by rw [hk.1] at hq; cases hq)
    (fun e' hq => by rw [hk.2.1] at hq; cases hq) (fun e' hq => by rw [hk.2.2.1] at hq; cases hq)
    _ _ (fun hq => h.timedOut p (htime ▸ hq)) (fun hq => by rw [hk.2.2.2.2] at hq; cases hq)
    (fun e' => (h.fifo e').sublist (hsub e')) (fun e' q hq => h.ticket_lt e' q ((hsub e').subset hq))
  · intro e'
    refine .trans ?_ mem_unlinkWaiter.symm
    rw [hk.2.2.2.1]
    constructor
    · intro hn
      cases hn
    intro hmem
    -- the waiter was linked in `e` and nowhere else
    have hl := (h.linked p e').mpr hmem.1
    rw [hp] at hl
    exact absurd rfl (hmem.2 (some.inj hl).symm)
  · intro q e' hqp
    refine .trans ?_ mem_unlinkWaiter.symm
    exact ⟨fun hq => ⟨hq, fun _ => hqp⟩, fun hq => hq.1⟩

/-! ## The selection -/

/-- The waiters a wake with `count` selects from those not selected yet. -/
def chosen (count : ℕ) (pool : List ℕ) : List ℕ :=
  pool.take (if count = INT_MAX then pool.length else count)

/-- **The selection.** The loop marks the first `count` of the waiters that are not
selected yet, and no others. -/
theorem selectLoop_spec {wakeRequested : ℕ → Bool} {remaining : ℕ} {waiters : List ℕ}
    (hpos : 0 < remaining) (hle : remaining ≤ INT_MAX) (hnodup : waiters.Nodup) (q : ℕ) :
    selectLoop wakeRequested remaining waiters q =
      (wakeRequested q ||
        decide (q ∈ chosen remaining (waiters.filter (fun p => wakeRequested p = false)))) := by
  induction waiters generalizing wakeRequested remaining with
  | nil =>
    rw [filter_nil]
    show wakeRequested q = (wakeRequested q || decide (q ∈ [].take _))
    rw [take_nil]
    simp
  | cons p rest ih =>
    rw [nodup_cons] at hnodup
    unfold selectLoop
    by_cases hp : wakeRequested p = true
    · rw [if_pos hp, filter_cons_of_neg (by simp [hp])]
      exact ih hpos hle hnodup.2
    · rw [if_neg hp, filter_cons_of_pos (by simp [hp])]
      -- marking the first waiter does not change which of the others are unmarked
      have hfilter : rest.filter (fun q => update wakeRequested p true q = false)
          = rest.filter (fun q => wakeRequested q = false) := by
        apply filter_congr
        intro r hr
        have hne : r ≠ p := by
          rintro rfl
          exact hnodup.1 hr
        rw [update_of_ne hne]
      have hmark : ∀ b : Bool, (update wakeRequested p true q || b)
          = (wakeRequested q || (decide (q = p) || b)) := by
        intro b
        by_cases hqp : q = p
        · subst hqp
          rw [update_self]
          simp
        · rw [update_of_ne hqp]
          simp [hqp]
      by_cases hmax : remaining = INT_MAX
      · rw [if_neg (not_not.mpr hmax), ih hpos hle hnodup.2, hfilter, hmark]
        unfold chosen
        rw [if_pos hmax, if_pos hmax, take_length, take_length]
        simp only [mem_cons, Bool.decide_or]
      · rw [if_pos hmax]
        by_cases hone : remaining - 1 = 0
        · rw [if_pos hone]
          have h1 : remaining = 1 := by omega
          have hlast := hmark false
          rw [Bool.or_false, Bool.or_false] at hlast
          rw [hlast]
          unfold chosen
          rw [if_neg hmax, h1, take_succ_cons, take_zero]
          simp only [mem_singleton]
        · rw [if_neg hone, ih (by omega) (by omega) hnodup.2, hfilter, hmark]
          unfold chosen
          obtain ⟨n, rfl⟩ : ∃ n, remaining = n + 1 := ⟨remaining - 1, by omega⟩
          have hmax' : n ≠ INT_MAX := Nat.ne_of_lt (Nat.lt_of_succ_le hle)
          rw [if_neg hmax, Nat.add_sub_cancel, if_neg hmax', take_succ_cons]
          simp only [mem_cons, Bool.decide_or]

theorem Inv.select (h : Inv σ) (hp : σ.pc p = .select e) (n : ℕ) (hpos : 0 < n)
    (hle : n ≤ INT_MAX) : Inv (σ.selectWaiters e n) :=
  { h with
    timedOut := fun q hq => by
      have hq' : (σ.pc q).timedOut = true := hq
      show selectLoop σ.wakeRequested n (σ.waiters e) q = false
      have hnodup : (σ.waiters e).Nodup :=
        (h.fifo e).imp (fun hlt heq => absurd (heq ▸ hlt) (lt_irrefl _))
      rw [selectLoop_spec hpos hle hnodup, h.timedOut q hq', Bool.false_or]
      apply decide_eq_false
      intro hmem
      -- a waiter that reports a timeout has the mutex of the entry itself
      have hin : q ∈ σ.waiters e := mem_of_mem_filter (mem_of_mem_take hmem)
      have hent := holdsEntry_of_timedOut hq' ((h.linked q e).mpr hin)
      have hown := h.entry_owner p e (by rw [hp]; rfl)
      have hsame := some.inj (hown.symm.trans (h.entry_owner q e hent))
      rw [← hsame, hp] at hq'
      cases hq' }

/-! ## Steps -/

theorem count_le (c : Call) : count c ≤ INT_MAX := by
  cases c with
  | wait address size expected finite => exact zero_le _
  | wake address n =>
    have hlt : n.toInt < 2147483648 := toInt_lt (x := n)
    show n.toInt.toNat ≤ 2147483647
    omega

theorem Inv.stay (h : Inv σ) {k0 : Pc} (hp : σ.pc p = k0) (hk : k.Within k0)
    (htime : k.timedOut = true → k0.timedOut = true ∨ σ.wakeRequested p = false) :
    Inv (σ.goto p k) := by
  subst hp
  obtain ⟨hreg, hent, huse, hlink, hwake⟩ := hk
  apply h.goto (fun hk => h.registry_owner p (hreg hk)) _ _ hlink _
    (fun hk => h.count_pos p (hwake hk))
  · intro e hk
    rcases hent with hent | hent
    · cases hent.symm.trans hk
    · exact h.entry_owner p e (hent.symm.trans hk)
  · intro e hk
    rcases huse with huse | huse
    · cases huse.symm.trans hk
    · exact h.uses p e (huse.symm.trans hk)
  · intro hk
    obtain ht | hw := htime hk
    · exact h.timedOut p ht
    · exact hw

theorem Inv.enterRegistry (h : Inv σ) (hfree : σ.registryOwner = none)
    (hent : k.holdsEntry = none) (huse : k.uses = none) (hlink : k.linked = (σ.pc p).linked)
    (htime : k.timedOut = true → (σ.pc p).timedOut = true)
    (hwake : k.waking = true → (σ.pc p).waking = true) : Inv ((σ.lockRegistry p).goto p k) := by
  have hlock := h.lockRegistry hfree p
  apply hlock.goto (fun _ => rfl) _ _ hlink (fun hk => h.timedOut p (htime hk))
    (fun hk => h.count_pos p (hwake hk))
  · intro e hk
    rw [hent] at hk
    cases hk
  · intro e hk
    rw [huse] at hk
    cases hk

theorem Inv.enterEntry (h : Inv σ) (hfree : σ.entryOwner e = none)
    (hreg : k.holdsRegistry = true → (σ.pc p).holdsRegistry = true)
    (hent : ∀ e', k.holdsEntry = some e' → e' = e)
    (huse : ∀ e', k.uses = some e' → (σ.pc p).uses = some e') (hlink : k.linked = (σ.pc p).linked)
    (htime : k.timedOut = true → (σ.pc p).timedOut = true)
    (hwake : k.waking = true → (σ.pc p).waking = true) : Inv ((σ.lockEntry e p).goto p k) := by
  have hlock := h.lockEntry hfree p
  apply hlock.goto (fun hk => h.registry_owner p (hreg hk)) _ (fun e' hk => h.uses p e' (huse e' hk))
    hlink (fun hk => h.timedOut p (htime hk)) (fun hk => h.count_pos p (hwake hk))
  intro e' hk
  rw [hent e' hk]
  exact update_self _ _ _

theorem Inv.leaveEntry (h : Inv (σ.goto p k)) (hown : σ.entryOwner e = some p)
    (hent : k.holdsEntry = none) : Inv ((σ.goto p k).unlockEntry e) := by
  apply h.unlockEntry hown
  rw [pc_goto_self]
  exact hent

theorem Inv.leaveRegistry (h : Inv (σ.goto p k)) (hown : σ.registryOwner = some p)
    (hreg : k.holdsRegistry = false) : Inv (σ.goto p k).unlockRegistry := by
  apply h.unlockRegistry hown
  rw [pc_goto_self]
  exact hreg

theorem Inv.remove (h : Inv σ) (hp : σ.pc p = .remove e result)
    (expired : Bool) : Inv (σ.advance p expired) := by
  have hreg := h.registry_owner p (by rw [hp]; rfl)
  have hent := h.entry_owner p e (by rw [hp]; rfl)
  unfold advance
  rw [hp]
  have hreturned : Inv (σ.goto p (.returned result)) := by
    refine h.stay hp ⟨nofun, .inl rfl, .inl rfl, rfl, nofun⟩ fun hk => .inl ?_
    cases result <;> first | rfl | cases hk
  dsimp only
  split
  next hlast =>
    have hnone := h.not_uses (by rw [hp]; rfl) (by rw [hp]; rfl) (by rw [hp]; rfl) hlast.2
    have herase : Inv ((σ.goto p (.returned result)).erase (σ.call p).address) := by
      apply hreturned.erase hlast.1
      intro q hq
      by_cases hqp : q = p
      · subst hqp
        rw [pc_goto_self] at hq
        cases hq
      · rw [pc_goto_of_ne _ _ hqp] at hq
        exact hnone q hq
    have hunlock := herase.unlockEntry (p := p) hent (by
      show ((σ.goto p (.returned result)).pc p).holdsEntry = none
      rw [pc_goto_self]
      rfl)
    apply hunlock.unlockRegistry (p := p) hreg
    show ((σ.goto p (.returned result)).pc p).holdsRegistry = false
    rw [pc_goto_self]
    rfl
  · have hunlock := hreturned.leaveEntry hent rfl
    apply hunlock.unlockRegistry (p := p) hreg
    show ((σ.goto p (.returned result)).pc p).holdsRegistry = false
    rw [pc_goto_self]
    rfl

/-- **One step of a call keeps the invariant.** -/
theorem Inv.advance (h : Inv σ) (p : ℕ) (expired : Bool) : Inv (σ.advance p expired) := by
  unfold State.advance
  cases hp : σ.pc p with
  | idle | returned =>
    exact h
  | register =>
    dsimp only
    split
    next hfree =>
      exact h.enterRegistry hfree rfl rfl (by rw [hp]; rfl) nofun
        nofun
    · exact h
  | lookup =>
    have hreg := h.registry_owner p (by rw [hp]; rfl)
    cases hentry : σ.registry (σ.call p).address with
    | none =>
      apply (h.create hentry).goto (fun _ => hreg) (fun _ hk => by cases hk) _
        (by show _ = (σ.pc p).linked; rw [hp]; rfl) (fun hk => by cases hk)
        (fun hk => by cases hk)
      intro e hk
      cases hk
      exact update_self _ _ _
    | some e =>
      apply h.goto (fun _ => hreg) (fun _ hk => by cases hk) _ (by rw [hp]; rfl)
        (fun hk => by cases hk) (fun hk => by cases hk)
      intro e' hk
      cases hk
      exact hentry
  | lock e =>
    dsimp only
    split
    next hfree =>
      exact h.enterEntry hfree (fun _ => by rw [hp]; rfl) (fun e' hk => by cases hk; rfl)
        (fun e' hk => by rw [hp]; exact hk) (by rw [hp]; rfl) nofun
        nofun
    · exact h
  | link e =>
    apply (h.link hp).unlockRegistry (h.registry_owner p (by rw [hp]; rfl))
    rw [pc_goto_self]
    rfl
  | loop e =>
    have hown := h.entry_owner p e (by rw [hp]; rfl)
    dsimp only
    split
    next hwait =>
      split
      · exact h.stay hp ⟨nofun, .inr rfl, .inr rfl, rfl, nofun⟩ (fun _ => .inr hwait.2)
      · apply leaveEntry _ hown rfl
        exact h.stay hp ⟨nofun, .inl rfl, .inr rfl, rfl, nofun⟩ nofun
    · exact h.stay hp ⟨nofun, .inr rfl, .inr rfl, rfl, nofun⟩ nofun
  | asleep | polling =>
    dsimp only
    split
    next hfree =>
      exact h.enterEntry hfree nofun (fun e' hk => by cases hk; rfl)
        (fun e' hk => by rw [hp]; exact hk) (by rw [hp]; rfl) nofun
        nofun
    · exact h
  | woken e =>
    apply leaveEntry _ (h.entry_owner p e (by rw [hp]; rfl)) rfl
    exact h.stay hp ⟨nofun, .inl rfl, .inr rfl, rfl, nofun⟩ nofun
  | recheck e =>
    dsimp only
    split
    next hwait =>
      exact h.stay hp ⟨nofun, .inr rfl, .inr rfl, rfl, nofun⟩ (fun _ => .inr hwait.2.2.2)
    · exact h.stay hp ⟨nofun, .inr rfl, .inr rfl, rfl, nofun⟩ nofun
  | unlink e result =>
    have hown : (σ.unlinkWaiter e p).entryOwner e = some p := h.entry_owner p e (by rw [hp]; rfl)
    dsimp only
    split
    all_goals
      apply leaveEntry _ hown rfl
      apply h.unlink hp ⟨rfl, rfl, rfl, rfl, rfl⟩
      rw [hp]
      cases result <;> rfl
  | emptied e result =>
    dsimp only
    split
    next hfree =>
      apply h.enterRegistry hfree rfl rfl (by rw [hp]; rfl) _ (fun hk => by cases hk)
      rw [hp]
      cases result <;> exact id
    · exact h
  | emptiedLock e result =>
    dsimp only
    split
    next hfree =>
      apply h.enterEntry hfree (fun _ => by rw [hp]; rfl) (fun e' hk => by cases hk; rfl)
        (fun e' hk => by cases hk) (by rw [hp]; rfl) _ (fun hk => by cases hk)
      rw [hp]
      cases result <;> exact id
    · exact h
  | remove e result =>
    have hremove := h.remove hp expired
    unfold State.advance at hremove
    rwa [hp] at hremove
  | wake =>
    dsimp only
    split
    next hfree =>
      exact h.enterRegistry hfree rfl rfl (by rw [hp]; rfl) nofun
        (fun _ => by rw [hp]; rfl)
    · exact h
  | wakeLookup =>
    have hreg := h.registry_owner p (by rw [hp]; rfl)
    cases hentry : σ.registry (σ.call p).address with
    | none =>
      apply leaveRegistry _ hreg rfl
      exact h.stay hp ⟨nofun, .inl rfl, .inl rfl, rfl, nofun⟩ nofun
    | some e =>
      apply h.goto (fun _ => hreg) (fun _ hk => by cases hk) _ (by rw [hp]; rfl)
        (fun hk => by cases hk) (fun _ => h.count_pos p (by rw [hp]; rfl))
      intro e' hk
      cases hk
      exact hentry
  | wakeLock e =>
    dsimp only
    split
    next hfree =>
      exact h.enterEntry hfree (fun _ => by rw [hp]; rfl) (fun e' hk => by cases hk; rfl)
        (fun e' hk => by rw [hp]; exact hk) (by rw [hp]; rfl) nofun
        (fun _ => by rw [hp]; rfl)
    · exact h
  | wakeUnlock e =>
    apply leaveRegistry _ (h.registry_owner p (by rw [hp]; rfl)) rfl
    exact h.stay hp ⟨nofun, .inr rfl, .inr rfl, rfl, fun _ => rfl⟩ nofun
  | select e =>
    have hpos := h.count_pos p (by rw [hp]; rfl)
    have hselect := h.select hp (count (σ.call p)) hpos (count_le _)
    have hown : (σ.selectWaiters e (count (σ.call p))).entryOwner e = some p :=
      h.entry_owner p e (by rw [hp]; rfl)
    apply leaveEntry _ hown rfl
    have hp' : (σ.selectWaiters e (count (σ.call p))).pc p = .select e := hp
    exact hselect.stay hp' ⟨nofun, .inl rfl, .inl rfl, rfl, nofun⟩ nofun

theorem Inv.begin (h : Inv σ) (p : ℕ) (call : Call) : Inv (σ.begin p call) := by
  unfold State.begin
  by_cases hp : σ.pc p = .idle
  · rw [if_pos hp]
    -- no call but `p` reads the arguments of `p`, and `p` has not begun
    have hcall : ∀ q, q ≠ p → update σ.call p call q = σ.call q :=
      fun q hqp => update_of_ne hqp _ _
    have hset : Inv { σ with call := update σ.call p call } :=
      { h with
        uses := fun q e hq => by
          have hq' : (σ.pc q).uses = some e := hq
          have hqp : q ≠ p := by
            rintro rfl
            rw [hp] at hq'
            cases hq'
          show σ.registry (update σ.call p call q).address = some e
          rw [hcall q hqp]
          exact h.uses q e hq'
        count_pos := fun q hq => by
          have hq' : (σ.pc q).waking = true := hq
          have hqp : q ≠ p := by
            rintro rfl
            rw [hp] at hq'
            cases hq'
          show 0 < count (update σ.call p call q)
          rw [hcall q hqp]
          exact h.count_pos q hq' }
    have hself : ({ σ with call := update σ.call p call } : State).call p = call :=
      update_self _ _ _
    have hpc : ({ σ with call := update σ.call p call } : State).pc p = .idle := hp
    unfold start
    by_cases hvalid : call.valid = false
    · rw [if_pos hvalid]
      exact hset.stay hpc ⟨nofun, .inl rfl, .inl rfl, rfl, nofun⟩ nofun
    rw [if_neg hvalid]
    cases call with
    | wait address size expected finite =>
      exact hset.stay hpc ⟨nofun, .inl rfl, .inl rfl, rfl, nofun⟩ nofun
    | wake address n =>
      dsimp only
      by_cases hzero : n = 0
      · rw [if_pos hzero]
        exact hset.stay hpc ⟨nofun, .inl rfl, .inl rfl, rfl, nofun⟩ nofun
      · rw [if_neg hzero]
        apply hset.goto (fun hk => by cases hk) (fun e' hk => by cases hk)
          (fun e' hk => by cases hk) (by rw [hpc]; rfl) (fun hk => by cases hk)
        intro _
        rw [hself]
        -- a valid count is not negative, and it is not 0
        have hcount : 0 ≤ n.toInt := by
          have hv := (Bool.not_eq_false _).mp hvalid
          exact (of_decide_eq_true hv).2.2
        have hne : n.toInt ≠ 0 := by
          intro h0
          exact hzero (eq_of_toInt_eq (h0.trans toInt_zero.symm))
        show 0 < n.toInt.toNat
        omega
  · rw [if_neg hp]
    exact h

theorem Inv.step (h : Inv σ) (op : Op) : Inv (σ.step op) := by
  cases op with
  | begin p call => exact h.begin p call
  | advance p expired => exact h.advance p expired
  | store memory => exact { h with }

theorem inv_reachable (h : Reachable memory σ) : Inv σ := by
  induction h with
  | init => exact inv_init memory
  | step _ op ih => exact ih.step op

/-! ## What one step changes -/

theorem pc_advance_of_ne (h : q ≠ p) (expired : Bool) : (σ.advance p expired).pc q = σ.pc q := by
  have hgoto : ∀ (τ : State) (k : Pc), (τ.goto p k).pc q = τ.pc q :=
    fun τ k => pc_goto_of_ne τ k h
  unfold advance
  cases σ.pc p <;> dsimp only
  all_goals first | rfl | (repeat' split) <;> first | rfl | exact hgoto _ _

theorem advance_asleep (h : (σ.advance p expired).pc p = .asleep e) :
    σ.pc p = .asleep e ∨ σ.pc p = .loop e ∧ σ.equal (σ.call p) = true := by
  have hgoto : ∀ (τ : State) (k : Pc), (τ.goto p k).pc p = k := fun τ k => pc_goto_self τ p k
  cases hp : σ.pc p with
  | loop e' =>
    unfold advance at h
    rw [hp] at h
    dsimp only at h
    split at h
    next hwait =>
      split at h
      · rw [hgoto] at h
        cases h
      · have hk : asleep e' = asleep e := (hgoto σ _).symm.trans h
        cases hk
        exact .inr ⟨rfl, hwait.1⟩
    · rw [hgoto] at h
      cases h
  | asleep e' =>
    left
    unfold advance at h
    rw [hp] at h
    dsimp only at h
    split at h
    · rw [hgoto] at h
      cases h
    · exact hp ▸ h
  | _ =>
    exfalso
    unfold advance at h
    rw [hp] at h
    dsimp only at h
    repeat' split at h
    all_goals
      first
      | (rw [hgoto] at h; cases h)
      | (rw [hp] at h; cases h)
      | (have hk := (hgoto _ _).symm.trans h; cases hk)

theorem wakeRequested_advance (hp : ∀ e, σ.pc p ≠ .select e) (expired : Bool) :
    (σ.advance p expired).wakeRequested = σ.wakeRequested := by
  unfold advance
  cases hk : σ.pc p <;> dsimp only
  case select e => exact absurd hk (hp e)
  all_goals first | rfl | (repeat' split) <;> rfl

theorem registry_advance {a : ℕ} (hreg : σ.registry a = some e)
    (hlost : (σ.advance p expired).registry a ≠ some e) :
    (∃ result, σ.pc p = .remove e result) ∧ σ.waiters e = [] := by
  cases hk : σ.pc p with
  | lookup =>
    exfalso
    apply hlost
    unfold advance
    rw [hk]
    dsimp only
    split
    · exact hreg
    next hnone =>
      have hne : a ≠ (σ.call p).address := by
        rintro rfl
        rw [hreg] at hnone
        cases hnone
      show update σ.registry (σ.call p).address (some σ.nextEntry) a = some e
      rw [update_of_ne hne]
      exact hreg
  | remove e' result =>
    unfold advance at hlost
    rw [hk] at hlost
    dsimp only at hlost
    split at hlost
    next hlast =>
      by_cases ha : a = (σ.call p).address
      · subst ha
        rw [hlast.1, some.injEq] at hreg
        subst hreg
        exact ⟨⟨result, rfl⟩, hlast.2⟩
      · exfalso
        apply hlost
        show update σ.registry (σ.call p).address none a = some e
        rw [update_of_ne ha]
        exact hreg
    · exact absurd hreg hlost
  | _ =>
    exfalso
    apply hlost
    unfold advance
    rw [hk]
    dsimp only
    repeat' split
    all_goals exact hreg

theorem pc_begin {call : Call} (h : (σ.begin p call).pc q ≠ σ.pc q) :
    (σ.begin p call).pc q = .register ∨ (σ.begin p call).pc q = .wake ∨
      ∃ result, (σ.begin p call).pc q = .returned result := by
  unfold begin at h ⊢
  split at h
  next hidle =>
    rw [if_pos hidle]
    by_cases hqp : q = p
    · subst hqp
      rw [pc_goto_self]
      unfold start
      repeat' split
      · exact .inr (.inr ⟨_, rfl⟩)
      · exact .inl rfl
      · exact .inr (.inr ⟨_, rfl⟩)
      · exact .inr (.inl rfl)
    · rw [pc_goto_of_ne _ _ hqp] at h
      exact absurd rfl h
  · exact absurd rfl h

theorem begin_frame (call : Call) :
    (σ.begin p call).wakeRequested = σ.wakeRequested ∧
      (σ.begin p call).registry = σ.registry := by
  unfold begin
  split <;> exact ⟨rfl, rfl⟩

/-! ## Safety -/

/-- **What holds in every state**: a blocked waiter is linked in the entry registered for
its address, the waiters of an entry stand in the order in which they came, and a call
that returns a timeout was not selected. -/
structure Safe (σ : State) : Prop where
  blocked : ∀ p e, (σ.pc p).blocked = some e →
    p ∈ σ.waiters e ∧ σ.registry (σ.call p).address = some e
  fifo : ∀ e, (σ.waiters e).Pairwise (fun p q => σ.ticket p < σ.ticket q)
  timedOut : ∀ p, σ.pc p = .returned .timedOut → σ.wakeRequested p = false

/-- **What holds of every step.** -/
structure SafeStep (σ : State) (op : Op) : Prop where
  /-- Who goes to sleep has the mutex of its entry and has found the value equal. -/
  sleeps : ∀ p e, σ.pc p ≠ .asleep e → (σ.step op).pc p = .asleep e →
    σ.entryOwner e = some p ∧ σ.equal (σ.call p) = true
  /-- A wake selects, of the waiters of the entry of its address that are not selected
  yet, the first `count`, and all for `INT_MAX`. -/
  selects : ∀ p e expired, op = .advance p expired → σ.pc p = .select e →
    σ.registry (σ.call p).address = some e ∧
      ∀ q, (σ.step op).wakeRequested q = (σ.wakeRequested q ||
        decide (q ∈ chosen (count (σ.call p))
          ((σ.waiters e).filter (fun q => σ.wakeRequested q = false))))
  /-- A wake that finds no entry has nobody to select. -/
  selects_none : ∀ p, σ.pc p = .wakeLookup → σ.registry (σ.call p).address = none →
    ∀ q e, q ∈ σ.waiters e → (σ.call q).address ≠ (σ.call p).address
  /-- Nothing else selects waiters. -/
  selects_only : ∀ q, (σ.step op).wakeRequested q ≠ σ.wakeRequested q →
    ∃ p e expired, op = .advance p expired ∧ σ.pc p = .select e
  /-- An entry that is removed has no waiter, and no call works with it. -/
  removes : ∀ a e, σ.registry a = some e → (σ.step op).registry a ≠ some e →
    σ.waiters e = [] ∧ ∀ q, (σ.pc q).uses ≠ some e

theorem Inv.safe (h : Inv σ) : Safe σ where
  blocked p e hb :=
    have hl := linked_of_blocked hb
    ⟨(h.linked p e).mp hl, h.uses p e (uses_of_linked hl)⟩
  fifo := h.fifo
  timedOut p hp := h.timedOut p (by rw [hp]; rfl)

theorem Inv.safeStep (h : Inv σ) (op : Op) : SafeStep σ op where
  sleeps := by
    intro p e hne heq
    cases op with
    | begin q call =>
      have hchange : (σ.begin q call).pc p ≠ σ.pc p := fun hsame => hne (hsame ▸ heq)
      obtain hk | hk | ⟨result, hk⟩ := pc_begin hchange
      · cases hk.symm.trans heq
      · cases hk.symm.trans heq
      · cases hk.symm.trans heq
    | advance q expired =>
      by_cases hpq : p = q
      · subst hpq
        obtain hp | ⟨hp, hequal⟩ := advance_asleep heq
        · exact absurd hp hne
        · exact ⟨h.entry_owner p e (by rw [hp]; rfl), hequal⟩
      · exact absurd ((pc_advance_of_ne hpq expired).symm.trans heq) hne
    | store memory => exact absurd heq hne
  selects := by
    rintro p e expired rfl hp
    refine ⟨h.uses p e (by rw [hp]; rfl), fun q => ?_⟩
    have hpos := h.count_pos p (by rw [hp]; rfl)
    have hnodup : (σ.waiters e).Nodup :=
      (h.fifo e).imp (fun hlt heq => absurd (heq ▸ hlt) (lt_irrefl _))
    have hstep : (σ.advance p expired).wakeRequested
        = selectLoop σ.wakeRequested (count (σ.call p)) (σ.waiters e) := by
      unfold State.advance
      rw [hp]
      rfl
    show (σ.advance p expired).wakeRequested q = _
    rw [hstep]
    exact selectLoop_spec hpos (count_le _) hnodup q
  selects_none := by
    intro p _ hnone q e hq heq
    have huse := h.uses q e (uses_of_linked ((h.linked q e).mpr hq))
    rw [heq, hnone] at huse
    cases huse
  selects_only := by
    intro q hne
    cases op with
    | begin p call => exact absurd (congrFun (begin_frame call).1 q) hne
    | store memory => exact absurd rfl hne
    | advance p expired =>
      by_contra hnone
      refine hne (congrFun (wakeRequested_advance ?_ expired) q)
      intro e hp
      exact hnone ⟨p, e, expired, rfl, hp⟩
  removes := by
    intro a e hreg hlost
    cases op with
    | begin p call => exact absurd ((congrFun (begin_frame call).2 a).trans hreg) hlost
    | store memory => exact absurd hreg hlost
    | advance p expired =>
      obtain ⟨⟨result, hp⟩, hempty⟩ := registry_advance hreg hlost
      exact ⟨hempty, h.not_uses (by rw [hp]; rfl) (by rw [hp]; rfl) (by rw [hp]; rfl) hempty⟩

/-- **SyncOnAddress is safe** in every reachable state and with every step from there. -/
theorem syncOnAddress_safe {memory : ℕ → ℕ} (h : Reachable memory σ) :
    Safe σ ∧ ∀ op, SafeStep σ op :=
  have hinv := inv_reachable h
  ⟨hinv.safe, hinv.safeStep⟩

theorem Reachable.run (h : Reachable memory σ) (ops : List Op) :
    Reachable memory (ops.foldl .step σ) := by
  induction ops generalizing σ with
  | nil => exact h
  | cons op ops ih => exact ih (h.step op)

/-- A call that waits for the word at address 4 to leave 0, up to its first sleep. -/
def sleepOps (p : ℕ) : List Op :=
  [.begin p (.wait 4 4 0 true), .advance p false, .advance p false, .advance p false,
    .advance p false, .advance p false]

/-- A wake at address 4 up to its selection. -/
def wakeOps (p : ℕ) (count : BitVec 32) : List Op :=
  [.begin p (.wake 4 count), .advance p false, .advance p false, .advance p false,
    .advance p false]

/-- One sleeping call, and a wake of one call that is about to select it. -/
theorem syncOnAddress_safe_one :
    let σ := (sleepOps 0 ++ wakeOps 1 1).foldl State.step (init fun _ => 0)
    Safe σ ∧ (σ.step (.advance 1 false)).wakeRequested 0 = true := by
  obtain ⟨hsafe, hstep⟩ := syncOnAddress_safe (Reachable.init.run (sleepOps 0 ++ wakeOps 1 1))
  refine ⟨hsafe, ?_⟩
  have hselects := ((hstep (.advance 1 false)).selects 1 0 false rfl (by decide)).2 0
  exact hselects.trans (by decide)

/-! ## More waiters than `INT_MAX` -/

/-- The calls `0`, …, `n - 1` sleep at address 4, and no call does anything else. -/
structure Parked (n : ℕ) (σ : State) : Prop where
  memory : σ.memory = fun _ => 0
  registryOwner : σ.registryOwner = none
  registry : σ.registry 4 = if n = 0 then none else some 0
  nextEntry : n = 0 → σ.nextEntry = 0
  entryOwner : σ.entryOwner 0 = none
  waiters : σ.waiters 0 = List.range n
  idle : ∀ p, n ≤ p → σ.pc p = .idle
  wakeRequested : ∀ p, σ.wakeRequested p = false

theorem advance_register (hp : σ.pc p = .register) (hfree : σ.registryOwner = none)
    (expired : Bool) : σ.advance p expired = (σ.lockRegistry p).goto p .lookup := by
  unfold advance
  rw [hp]
  exact if_pos hfree

theorem advance_lookup (hp : σ.pc p = .lookup)
    (hreg : σ.registry (σ.call p).address = some e) (expired : Bool) :
    σ.advance p expired = σ.goto p (.lock e) := by
  unfold advance
  rw [hp]
  rw [hreg]

theorem advance_create (hp : σ.pc p = .lookup) (hreg : σ.registry (σ.call p).address = none)
    (expired : Bool) :
    σ.advance p expired = (σ.create (σ.call p).address).goto p (.lock σ.nextEntry) := by
  unfold advance
  rw [hp]
  rw [hreg]

theorem advance_lock (hp : σ.pc p = .lock e) (hfree : σ.entryOwner e = none)
    (expired : Bool) : σ.advance p expired = (σ.lockEntry e p).goto p (.link e) := by
  unfold advance
  rw [hp]
  exact if_pos hfree

theorem advance_link (hp : σ.pc p = .link e) (expired : Bool) :
    σ.advance p expired = ((σ.linkWaiter e p).goto p (.loop e)).unlockRegistry := by
  unfold advance
  rw [hp]

theorem advance_loop (hp : σ.pc p = .loop e) (hwait : σ.equal (σ.call p) = true)
    (hwake : σ.wakeRequested p = false) :
    σ.advance p false = (σ.goto p (.asleep e)).unlockEntry e := by
  unfold advance
  rw [hp]
  dsimp only
  rw [if_pos ⟨hwait, hwake⟩, if_neg (by simp)]

theorem parked_of_lock (hmemory : σ.memory = fun _ => 0) (hreg : σ.registry 4 = some 0)
    (hentry : σ.entryOwner 0 = none) (hwaiters : σ.waiters 0 = range n)
    (hidle : ∀ p, n < p → σ.pc p = .idle) (hwake : ∀ p, σ.wakeRequested p = false)
    (hcall : σ.call n = .wait 4 4 0 true) (hp : σ.pc n = .lock 0) :
    Parked (n + 1) ((((σ.advance n false).advance n false).advance n false)) := by
  rw [advance_lock hp hentry, advance_link (pc_goto_self _ _ _)]
  set τ := ((((σ.lockEntry 0 n).goto n (.link 0)).linkWaiter 0 n).goto n (.loop 0)).unlockRegistry
    with hτ
  have hloop : τ.pc n = .loop 0 := pc_goto_self _ _ _
  have hequal : τ.equal (τ.call n) = true := by
    have hc : τ.call n = .wait 4 4 0 true := hcall
    rw [hc]
    show (readWord σ.memory 4 4 == 0) = true
    rw [hmemory]
    decide
  rw [advance_loop hloop hequal (hwake n)]
  exact
    { memory := hmemory
      registryOwner := rfl
      registry := by
        rw [if_neg (succ_ne_zero n)]
        exact hreg
      nextEntry := fun h0 => absurd h0 (succ_ne_zero n)
      entryOwner := by
        show update τ.entryOwner 0 none 0 = none
        exact update_self _ _ _
      waiters := by
        show update σ.waiters 0 (σ.waiters 0 ++ [n]) 0 = range (n + 1)
        rw [update_self, hwaiters, range_succ]
      idle := by
        intro p hlt
        have hne : p ≠ n := by omega
        have hτp : τ.pc p = σ.pc p :=
          (pc_goto_of_ne _ _ hne).trans (pc_goto_of_ne _ _ hne)
        exact (pc_goto_of_ne τ _ hne).trans (hτp.trans (hidle p hlt))
      wakeRequested := hwake }

theorem parked_succ (h : Parked n σ) : Parked (n + 1) ((sleepOps n).foldl step σ) := by
  show Parked (n + 1) ((((((σ.begin n (.wait 4 4 0 true)).advance n false).advance n
    false).advance n false).advance n false).advance n false)
  have hbegin : σ.begin n (.wait 4 4 0 true)
      = ({ σ with call := update σ.call n (.wait 4 4 0 true) } : State).goto n .register := by
    unfold begin
    rw [if_pos (h.idle n (le_refl n))]
    rfl
  have hfree : (({ σ with call := update σ.call n (.wait 4 4 0 true) } : State).goto n
      .register).registryOwner = none := h.registryOwner
  rw [hbegin, advance_register (pc_goto_self _ _ _) hfree]
  set τ := (({ σ with call := update σ.call n (.wait 4 4 0 true) } : State).goto n
    .register).lockRegistry n with hτ
  have hcall : τ.call n = .wait 4 4 0 true := update_self _ _ _
  have hpc : ∀ p, n < p → τ.pc p = .idle := by
    intro p hlt
    have hne : p ≠ n := by omega
    exact (pc_goto_of_ne _ _ hne).trans (h.idle p (by omega))
  have haddress : ((τ.goto n .lookup).call n).address = 4 := by
    show (τ.call n).address = 4
    rw [hcall]
    rfl
  by_cases hn : n = 0
  · have hnone : (τ.goto n .lookup).registry ((τ.goto n .lookup).call n).address = none := by
      rw [haddress]
      exact h.registry.trans (if_pos hn)
    rw [advance_create (pc_goto_self _ _ _) hnone, haddress]
    have hnext : (τ.goto n .lookup).nextEntry = 0 := h.nextEntry hn
    apply parked_of_lock
    · exact h.memory
    · show update σ.registry 4 (some (τ.goto n .lookup).nextEntry) 4 = some 0
      rw [update_self, hnext]
    · exact h.entryOwner
    · exact h.waiters
    · intro p hlt
      have hne : p ≠ n := by omega
      exact (pc_goto_of_ne _ _ hne).trans ((pc_goto_of_ne _ _ hne).trans (hpc p hlt))
    · exact h.wakeRequested
    · exact hcall
    · rw [hnext]
      exact pc_goto_self _ _ _
  · have hsome : (τ.goto n .lookup).registry ((τ.goto n .lookup).call n).address = some 0 := by
      rw [haddress]
      exact h.registry.trans (if_neg hn)
    rw [advance_lookup (pc_goto_self _ _ _) hsome]
    apply parked_of_lock
    · exact h.memory
    · exact h.registry.trans (if_neg hn)
    · exact h.entryOwner
    · exact h.waiters
    · intro p hlt
      have hne : p ≠ n := by omega
      exact (pc_goto_of_ne _ _ hne).trans ((pc_goto_of_ne _ _ hne).trans (hpc p hlt))
    · exact h.wakeRequested
    · exact hcall
    · exact pc_goto_self _ _ _

theorem parked_reachable (n : ℕ) : ∃ σ, Reachable (fun _ => 0) σ ∧ Parked n σ := by
  induction n with
  | zero =>
    refine ⟨init fun _ => 0, .init, ?_⟩
    exact
      { memory := rfl
        registryOwner := rfl
        registry := rfl
        nextEntry := fun _ => rfl
        entryOwner := rfl
        waiters := rfl
        idle := fun _ _ => rfl
        wakeRequested := fun _ => rfl }
  | succ n ih =>
    obtain ⟨σ, hreach, hparked⟩ := ih
    exact ⟨_, hreach.run (sleepOps n), parked_succ hparked⟩

theorem advance_wake (hp : σ.pc p = .wake) (hfree : σ.registryOwner = none) (expired : Bool) :
    σ.advance p expired = (σ.lockRegistry p).goto p .wakeLookup := by
  unfold advance
  rw [hp]
  exact if_pos hfree

theorem advance_wakeLookup (hp : σ.pc p = .wakeLookup)
    (hreg : σ.registry (σ.call p).address = some e) (expired : Bool) :
    σ.advance p expired = σ.goto p (.wakeLock e) := by
  unfold advance
  rw [hp]
  rw [hreg]

theorem advance_wakeLock (hp : σ.pc p = .wakeLock e) (hfree : σ.entryOwner e = none)
    (expired : Bool) : σ.advance p expired = (σ.lockEntry e p).goto p (.wakeUnlock e) := by
  unfold advance
  rw [hp]
  exact if_pos hfree

theorem advance_wakeUnlock (hp : σ.pc p = .wakeUnlock e) (expired : Bool) :
    σ.advance p expired = (σ.goto p (.select e)).unlockRegistry := by
  unfold advance
  rw [hp]

theorem parked_wake (hn : n ≠ 0) (h : Parked n σ) :
    ∃ τ, (wakeOps n 2147483647).foldl step σ = τ ∧
      τ.pc n = .select 0 ∧ count (τ.call n) = INT_MAX ∧ τ.waiters 0 = range n ∧
      ∀ q, τ.wakeRequested q = false := by
  have hbegin : σ.begin n (.wake 4 2147483647)
      = ({ σ with call := update σ.call n (.wake 4 2147483647) } : State).goto n .wake := by
    unfold begin
    rw [if_pos (h.idle n (le_refl n))]
    rfl
  have hfree : (({ σ with call := update σ.call n (.wake 4 2147483647) } : State).goto n
      .wake).registryOwner = none := h.registryOwner
  show ∃ τ, ((((σ.begin n (.wake 4 2147483647)).advance n false).advance n false).advance n
    false).advance n false = τ ∧ _
  rw [hbegin, advance_wake (pc_goto_self _ _ _) hfree]
  set τ := (({ σ with call := update σ.call n (.wake 4 2147483647) } : State).goto n
    .wake).lockRegistry n with hτ
  have hcall : τ.call n = .wake 4 2147483647 := update_self _ _ _
  have hsome : (τ.goto n .wakeLookup).registry ((τ.goto n .wakeLookup).call n).address
      = some 0 := by
    show σ.registry (τ.call n).address = some 0
    rw [hcall]
    exact h.registry.trans (if_neg hn)
  have hentry : ((τ.goto n .wakeLookup).goto n (.wakeLock 0)).entryOwner 0 = none := h.entryOwner
  rw [advance_wakeLookup (pc_goto_self _ _ _) hsome, advance_wakeLock (pc_goto_self _ _ _) hentry,
    advance_wakeUnlock (pc_goto_self _ _ _)]
  refine ⟨_, rfl, pc_goto_self _ _ _, ?_, h.waiters, h.wakeRequested⟩
  show count (τ.call n) = INT_MAX
  rw [hcall]
  decide

/-- With `2^31` waiters a wake of `INT_MAX` selects `2^31`, one more than its count. -/
theorem syncOnAddress_all :
    ∃ σ p, Reachable (fun _ => 0) σ ∧ σ.pc p = .select 0 ∧ count (σ.call p) = 2147483647 ∧
      (σ.waiters 0).length = 2147483648 ∧ (∀ q, σ.wakeRequested q = false) ∧
      ∀ q ∈ σ.waiters 0, (σ.step (.advance p false)).wakeRequested q = true := by
  obtain ⟨σ, hreach, hparked⟩ := parked_reachable 2147483648
  obtain ⟨τ, hrun, hpc, hcount, hwaiters, hwake⟩ := parked_wake (by decide) hparked
  have hreach' := hreach.run (wakeOps 2147483648 2147483647)
  rw [hrun] at hreach'
  refine ⟨_, 2147483648, hreach', hpc, hcount, ?_, hwake, ?_⟩
  · rw [hwaiters, length_range]
  · intro q hq
    have hinv := inv_reachable hreach'
    have hselects := ((hinv.safeStep (.advance 2147483648 false)).selects 2147483648 0 false rfl
      hpc).2 q
    rw [hcount] at hselects
    unfold chosen at hselects
    rw [if_pos rfl, take_length] at hselects
    rw [hselects, Bool.or_eq_true]
    right
    exact decide_eq_true (mem_filter.mpr ⟨hq, decide_eq_true (hwake q)⟩)

end State

end MagnusPS5.Kernel.SyncOnAddress
