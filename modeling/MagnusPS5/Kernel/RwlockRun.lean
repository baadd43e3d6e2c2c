/-
The accounting of a reader-writer lock over all interleavings, and what a call that fails
leaves behind.

`Inv` is the invariant of a run. A step keeps it unless it counts past the largest
`uint32_t`: a read lock that is granted while `reader_count` is at its end, or a writer that
goes to sleep while `waiting_writers` is. `rwlock_accounting` says that these are the only
runs in which the numbers are wrong.
-/
import MagnusPS5.Kernel.Rwlock
import Mathlib.Algebra.Order.BigOperators.Group.List
import Mathlib.Tactic.Linarith

namespace MagnusPS5.Kernel.Rwlock

open List Option Nat Lib.Ledger Reader PthreadRwlockPrivate List Rwlock Pc State Call Inv

/-! ## Entries of the list of readers -/

/-- The read locks of one thread. -/
def reads (thread : ℕ) (readers : List Reader) : ℕ :=
  ((readers.filter (fun reader => reader.thread = thread)).map Reader.count).sum

@[simp] theorem reads_nil (thread : ℕ) : reads thread [] = 0 := rfl

theorem reads_cons (thread : ℕ) (reader : Reader) (rest : List Reader) :
    reads thread (reader :: rest)
      = (if reader.thread = thread then reader.count else 0) + reads thread rest := by
  by_cases h : reader.thread = thread <;> simp [reads, h]

theorem reads_append (thread : ℕ) (l r : List Reader) :
    reads thread (l ++ r) = reads thread l + reads thread r := by
  simp [reads]

variable {thread : ℕ} {readers : List Reader} {timeout_us : Option ℕ}

theorem reads_eq_zero (h : thread ∉ readers.map Reader.thread) : reads thread readers = 0 := by
  induction readers with
  | nil => simp
  | cons reader rest ih =>
    rw [map_cons, mem_cons, not_or] at h
    rw [reads_cons, if_neg (Ne.symm h.1), ih h.2]

theorem reads_pos (hpos : ∀ r ∈ readers, 0 < r.count)
    (h : thread ∈ readers.map Reader.thread) : 0 < reads thread readers := by
  induction readers with
  | nil => simp at h
  | cons reader rest ih =>
    rw [reads_cons]
    rw [map_cons, mem_cons] at h
    rcases h with h | h
    · rw [if_pos h.symm]
      have := hpos reader mem_cons_self
      omega
    · have := ih (fun r hr => hpos r (.tail _ hr)) h
      omega

theorem find_isSome {rwlock : PthreadRwlockPrivate} :
    (rwlockFindReader rwlock thread).isSome = true ↔
      thread ∈ rwlock.readers.map Reader.thread := by
  simp [rwlockFindReader, find?_isSome]

@[simp] theorem map_thread_countUp (thread : ℕ) (readers : List Reader) :
    (countUp thread readers).map Reader.thread = readers.map Reader.thread := by
  induction readers with
  | nil => simp [countUp]
  | cons reader rest ih =>
    rw [countUp]
    split
    · simp
    · rw [map_cons, map_cons, ih]

theorem countUp_spec
    (h : thread ∈ readers.map Reader.thread) (hlt : (readers.map count).sum < UINT32_MAX)
    (hpos : ∀ r ∈ readers, 0 < r.count) :
    ((countUp thread readers).map Reader.count).sum = (readers.map Reader.count).sum + 1 ∧
      (∀ r ∈ countUp thread readers, 0 < r.count) ∧
      ∀ t, reads t (countUp thread readers)
        = reads t readers + if t = thread then 1 else 0 := by
  induction readers with
  | nil => simp at h
  | cons reader rest ih =>
    rw [map_cons, sum_cons] at hlt
    rw [countUp]
    by_cases hself : reader.thread = thread
    · have hup : increment reader.count = reader.count + 1 := increment_of_lt (by omega)
      rw [if_pos hself, hup]
      refine ⟨by simp only [map_cons, sum_cons]; omega, ?_, ?_⟩
      · intro r hr
        rw [mem_cons] at hr
        rcases hr with rfl | hr
        · exact succ_pos _
        · exact hpos r (.tail _ hr)
      · intro t
        rw [reads_cons, reads_cons]
        dsimp only
        by_cases ht : t = thread
        · rw [if_pos (hself.trans ht.symm), if_pos (hself.trans ht.symm), if_pos ht]
          omega
        · have hne : ¬ reader.thread = t := fun heq => ht (heq.symm.trans hself)
          rw [if_neg hne, if_neg hne, if_neg ht]
          omega
    · rw [map_cons, mem_cons] at h
      have hrest : thread ∈ rest.map Reader.thread :=
        h.resolve_left fun heq => hself heq.symm
      obtain ⟨hsum, hpos', hreads⟩ := ih hrest (by omega)
        (fun r hr => hpos r (.tail _ hr))
      rw [if_neg hself]
      refine ⟨by simp only [map_cons, sum_cons]; omega, ?_, ?_⟩
      · intro r hr
        rw [mem_cons] at hr
        rcases hr with rfl | hr
        · exact hpos _ mem_cons_self
        · exact hpos' r hr
      · intro t
        rw [reads_cons, reads_cons, hreads t]
        omega

theorem countDown_eq_none :
    countDown thread readers = none ↔ thread ∉ readers.map Reader.thread := by
  induction readers with
  | nil => simp [countDown]
  | cons reader rest ih =>
    rw [countDown, map_cons, mem_cons]
    by_cases hself : reader.thread = thread
    · simp [hself]
    · rw [if_neg hself, map_eq_none_iff, ih]
      simp [Ne.symm hself]

theorem countDown_spec {left : List Reader} (h : countDown thread readers = some left)
    (hle : (readers.map count).sum ≤ UINT32_MAX) (hpos : ∀ r ∈ readers, 0 < r.count) :
    (left.map Reader.thread).Sublist (readers.map Reader.thread) ∧
      (left.map count).sum + 1 = (readers.map count).sum ∧
      (∀ r ∈ left, 0 < r.count) ∧
      ∀ t, reads t left + (if t = thread then 1 else 0) = reads t readers := by
  induction readers generalizing left with
  | nil => simp [countDown] at h
  | cons reader rest ih =>
    rw [map_cons, sum_cons] at hle
    rw [countDown] at h
    have hcount := hpos reader mem_cons_self
    have hrest : ∀ r ∈ rest, 0 < r.count := fun r hr => hpos r (.tail _ hr)
    by_cases hself : reader.thread = thread
    · have hdown : decrement reader.count = reader.count - 1 :=
        decrement_of_pos hcount
      rw [if_pos hself] at h
      dsimp only at h
      rw [hdown] at h
      by_cases hone : reader.count - 1 = 0
      · rw [if_pos hone, some.injEq] at h
        subst h
        refine ⟨sublist_cons_self _ _, ?_, hrest, ?_⟩
        · simp only [map_cons, sum_cons]
          omega
        · intro t
          rw [reads_cons]
          by_cases ht : t = thread
          · rw [if_pos ht, if_pos (hself.trans ht.symm)]
            omega
          · rw [if_neg ht, if_neg (fun heq => ht (heq.symm.trans hself))]
            omega
      · rw [if_neg hone, some.injEq] at h
        subst h
        refine ⟨by simp, ?_, ?_, ?_⟩
        · simp only [map_cons, sum_cons]
          omega
        · intro r hr
          rw [mem_cons] at hr
          rcases hr with rfl | hr
          · exact pos_of_ne_zero hone
          · exact hrest r hr
        · intro t
          rw [reads_cons, reads_cons]
          dsimp only
          by_cases ht : t = thread
          · rw [if_pos ht, if_pos (hself.trans ht.symm), if_pos (hself.trans ht.symm)]
            omega
          · have hne : ¬ reader.thread = t := fun heq => ht (heq.symm.trans hself)
            rw [if_neg ht, if_neg hne, if_neg hne]
            omega
    · rw [if_neg hself, map_eq_some_iff] at h
      obtain ⟨less, hless, rfl⟩ := h
      obtain ⟨hsub, hsum, hpos', hreads⟩ := ih hless (by omega) hrest
      refine ⟨?_, ?_, ?_, ?_⟩
      · rw [map_cons, map_cons]
        exact hsub.cons_cons _
      · simp only [map_cons, sum_cons]
        omega
      · intro r hr
        rw [mem_cons] at hr
        rcases hr with rfl | hr
        · exact hcount
        · exact hpos' r hr
      · intro t
        rw [reads_cons, reads_cons, ← hreads t]
        omega

/-! ## The lock -/

/-- The locks a thread holds. -/
def PthreadRwlockPrivate.holds (rwlock : PthreadRwlockPrivate) (thread : ℕ) : ℕ :=
  reads thread rwlock.readers + if rwlock.writer = some thread then rwlock.writer_count else 0

/-- Everything but `waiting_writers` is the same. -/
def SameHoldings (before after : PthreadRwlockPrivate) : Prop :=
  after = { before with waiting_writers := after.waiting_writers }

/-- **The numbers of the lock add up, and a writer excludes every other thread.** -/
structure Accounts (rwlock : PthreadRwlockPrivate) : Prop where
  reader_count : rwlock.reader_count = (rwlock.readers.map Reader.count).sum
  positive : ∀ reader ∈ rwlock.readers, 0 < reader.count
  distinct : (rwlock.readers.map Reader.thread).Nodup
  writer_count : 0 < rwlock.writer_count ↔ rwlock.writer ≠ none
  exclusive : ∀ writer, rwlock.writer = some writer →
    ∀ reader ∈ rwlock.readers, reader.thread = writer

/-- The accounts with the bounds of the counters. -/
structure Sane (rwlock : PthreadRwlockPrivate) : Prop extends Accounts rwlock where
  writer_count_le : rwlock.writer_count ≤ 1
  reader_count_le : rwlock.reader_count ≤ UINT32_MAX

variable {rwlock rwlock' : PthreadRwlockPrivate} {self : ℕ}

theorem SameHoldings.refl : SameHoldings rwlock rwlock := rfl

theorem sameHoldings_waiting (n : ℕ) :
    SameHoldings rwlock { rwlock with waiting_writers := n } := rfl

section

variable (h : SameHoldings rwlock rwlock')

include h

theorem SameHoldings.trans {c : PthreadRwlockPrivate}
    (h' : SameHoldings rwlock' c) : SameHoldings rwlock c := by
  unfold SameHoldings at *
  rw [h', h]

theorem SameHoldings.holds (thread : ℕ) : rwlock'.holds thread = rwlock.holds thread := by
  rw [h]
  simp [PthreadRwlockPrivate.holds]

theorem SameHoldings.sane (hs : Sane rwlock) : Sane rwlock' := by
  rw [h]
  exact ⟨⟨hs.reader_count, hs.positive, hs.distinct, hs.writer_count, hs.exclusive⟩,
    hs.writer_count_le, hs.reader_count_le⟩

end

theorem sane_init : Sane {} := by
  refine ⟨⟨?_, ?_, ?_, ?_, ?_⟩, ?_, ?_⟩ <;> simp

section

variable (h : Sane rwlock)

include h

theorem Sane.writer_count_eq {writer : ℕ} (hw : rwlock.writer = some writer) :
    rwlock.writer_count = 1 := by
  have hpos := h.writer_count.mpr (by rw [hw]; simp)
  have hle := h.writer_count_le
  omega

/-- **A read lock that is granted**: one more for its thread. -/
theorem Sane.addReader (hgrant : grantsRead rwlock self = true)
    (hlt : rwlock.reader_count < UINT32_MAX) :
    Sane (rwlockAddReader rwlock self) ∧
      ∀ t, (rwlockAddReader rwlock self).holds t
        = rwlock.holds t + if t = self then 1 else 0 := by
  have hup : increment rwlock.reader_count = rwlock.reader_count + 1 := increment_of_lt hlt
  have hsum := h.reader_count
  -- with a writer set, only the writer itself gets here
  have hwriter : ∀ writer, rwlock.writer = some writer → writer = self := by
    intro writer hw
    rw [grantsRead, hw] at hgrant
    simpa using hgrant
  unfold rwlockAddReader
  by_cases hfound : (rwlockFindReader rwlock self).isSome = true
  · obtain ⟨hsum', hpos', hreads⟩ :=
      countUp_spec (find_isSome.mp hfound) (hsum ▸ hlt) h.positive
    rw [if_pos hfound, hup]
    refine ⟨⟨⟨by rw [hsum', ← hsum], hpos', ?_, h.writer_count, ?_⟩, h.writer_count_le,
      succ_le_of_lt hlt⟩, ?_⟩
    · rw [map_thread_countUp]
      exact h.distinct
    · intro writer hw reader hreader
      have hmem := mem_map_of_mem (f := Reader.thread) hreader
      rw [map_thread_countUp, List.mem_map] at hmem
      obtain ⟨other, hother, heq⟩ := hmem
      rw [← heq]
      exact h.exclusive writer hw other hother
    · intro t
      simp only [PthreadRwlockPrivate.holds, hreads t]
      omega
  · have hnew : self ∉ rwlock.readers.map Reader.thread := fun hmem =>
      hfound (find_isSome.mpr hmem)
    rw [if_neg hfound, hup]
    refine ⟨⟨⟨by simp [hsum], ?_, ?_, h.writer_count, ?_⟩, h.writer_count_le,
      succ_le_of_lt hlt⟩, ?_⟩
    · intro reader hreader
      rw [mem_append, mem_singleton] at hreader
      rcases hreader with hreader | rfl
      · exact h.positive reader hreader
      · exact one_pos
    · rw [map_append, nodup_append]
      refine ⟨h.distinct, by simp, ?_⟩
      intro a ha b hb
      rw [map_singleton, mem_singleton] at hb
      rw [hb]
      intro heq
      rw [heq] at ha
      exact hnew ha
    · intro writer hw reader hreader
      rw [mem_append, mem_singleton] at hreader
      rcases hreader with hreader | rfl
      · exact h.exclusive writer hw reader hreader
      · exact (hwriter writer hw).symm
    · intro t
      simp only [PthreadRwlockPrivate.holds, reads_append, reads_cons, reads_nil]
      by_cases ht : t = self
      · rw [if_pos ht, if_pos ht.symm]
        omega
      · rw [if_neg ht, if_neg (Ne.symm ht)]
        omega

/-- **A write lock that is granted**: the lock had no holder, its thread holds it once. -/
theorem Sane.setWriter (self : ℕ) (hgrant : grantsWrite rwlock = true) :
    Sane (setWriter rwlock self) ∧
      ∀ t, (setWriter rwlock self).holds t = rwlock.holds t + if t = self then 1 else 0 := by
  simp only [grantsWrite, Bool.and_eq_true, isNone_iff_eq_none, beq_iff_eq] at hgrant
  obtain ⟨hnone, hzero⟩ := hgrant
  -- a count of zero leaves no entry, since every entry counts
  have hempty : rwlock.readers = [] := by
    rw [eq_nil_iff_forall_not_mem]
    intro reader hreader
    have hle := single_le_sum (l := rwlock.readers.map count) (by simp) reader.count
      (mem_map_of_mem hreader)
    have hpos := h.positive reader hreader
    rw [← h.reader_count, hzero] at hle
    omega
  refine ⟨⟨⟨?_, ?_, ?_, ?_, ?_⟩, ?_, ?_⟩, ?_⟩
  · exact h.reader_count
  · exact h.positive
  · exact h.distinct
  · simp [Rwlock.setWriter]
  · simp [Rwlock.setWriter, hempty]
  · simp [Rwlock.setWriter]
  · exact h.reader_count_le
  · intro t
    simp only [PthreadRwlockPrivate.holds, Rwlock.setWriter, hempty, hnone, reads_nil,
      some.injEq, reduceCtorEq, if_false, eq_comm (a := self)]

/-- **Unlock**: it succeeds iff its thread holds the lock, and gives back one hold; otherwise
nothing changes. -/
theorem Sane.unlock (self : ℕ) :
    (0 < rwlock.holds self ∧ (pthreadRwlockUnlock rwlock self).2 = .returned .ok ∧
        Sane (pthreadRwlockUnlock rwlock self).1 ∧
        (pthreadRwlockUnlock rwlock self).1.waiting_writers = rwlock.waiting_writers ∧
        ∀ t, (pthreadRwlockUnlock rwlock self).1.holds t + (if t = self then 1 else 0)
          = rwlock.holds t) ∨
      rwlock.holds self = 0 ∧ pthreadRwlockUnlock rwlock self = (rwlock, .returned .eperm) := by
  have hsum := h.reader_count
  unfold pthreadRwlockUnlock rwlockRemoveReader
  cases hdown : countDown self rwlock.readers with
  | some left =>
    left
    obtain ⟨hsub, hsum', hpos', hreads⟩ :=
      countDown_spec hdown (hsum ▸ h.reader_count_le) h.positive
    have hcount : decrement rwlock.reader_count = (left.map Reader.count).sum := by
      rw [decrement_of_pos (by omega)]
      omega
    have hmem : self ∈ rwlock.readers.map Reader.thread := by
      by_contra hnot
      rw [countDown_eq_none.mpr hnot] at hdown
      cases hdown
    simp only [map_some]
    refine ⟨?_, trivial, ⟨⟨hcount, hpos', hsub.nodup h.distinct, h.writer_count, ?_⟩,
      h.writer_count_le, ?_⟩, trivial, ?_⟩
    · have := reads_pos h.positive hmem
      unfold holds
      omega
    · intro writer hw reader hreader
      have hthread := hsub.subset (mem_map_of_mem (f := thread) hreader)
      rw [List.mem_map] at hthread
      obtain ⟨other, hother, heq⟩ := hthread
      rw [← heq]
      exact h.exclusive writer hw other hother
    · have := h.reader_count_le
      show decrement rwlock.reader_count ≤ UINT32_MAX
      omega
    · intro t
      simp only [holds]
      have := hreads t
      omega
  | none =>
    have hnot := countDown_eq_none.mp hdown
    simp only [map_none]
    by_cases hw : rwlock.writer = some self
    · left
      have hone := h.writer_count_eq hw
      have hdec : decrement 1 = 0 := decrement_of_pos one_pos
      have hempty : rwlock.readers = [] := by
        rw [eq_nil_iff_forall_not_mem]
        intro reader hreader
        have hthread := h.exclusive self hw reader hreader
        exact hnot (hthread ▸ mem_map_of_mem hreader)
      rw [if_pos hw, hone, if_neg one_ne_zero, hdec, if_pos rfl]
      refine ⟨?_, by simp, ⟨⟨h.reader_count, h.positive, h.distinct, by simp, by simp⟩,
        by simp, h.reader_count_le⟩, by simp, ?_⟩
      · rw [holds, if_pos hw, hone]
        omega
      · intro t
        simp only [holds, hempty, hw, hone, reads_nil,
          reduceCtorEq, if_false, some.injEq, eq_comm (a := self)]
    · right
      rw [if_neg hw, holds, reads_eq_zero hnot, if_neg hw]
      exact ⟨rfl, rfl⟩

end

/-! ## One step of a call -/

/-- The registrations as a waiting writer of a call at `pc`. -/
def Pc.registered : Pc → ℕ
  | .loop true => 1
  | _ => 0

/-- The holds that a call has gained its thread. -/
def gain : Request → Pc → ℤ
  | .unlock, .returned .ok => -1
  | _, .returned .ok => 1
  | _, _ => 0

/-- What a step of a call does to the lock: `registered` is its registration before. -/
structure Outcome (thread : Option ℕ) (request : Request) (registered : ℕ)
    (rwlock : PthreadRwlockPrivate) (next : PthreadRwlockPrivate × Pc) : Prop where
  sane : Sane next.1
  waiting : next.1.waiting_writers + registered = rwlock.waiting_writers + next.2.registered
  waiting_le : next.1.waiting_writers ≤ UINT32_MAX
  holds : ∀ t, (next.1.holds t : ℤ)
    = rwlock.holds t + if thread = some t then gain request next.2 else 0
  same : gain request next.2 = 0 → SameHoldings rwlock next.1
  live : next.2 ≠ .aborted

/-- A read lock that is granted finds room in `reader_count`. -/
def ReadFits (rwlock : PthreadRwlockPrivate) (self : ℕ) : Prop :=
  grantsRead rwlock self = true → rwlock.reader_count ≠ UINT32_MAX

/-- A writer that goes to sleep finds room in `waiting_writers`. -/
def WaitFits (rwlock : PthreadRwlockPrivate) (self : ℕ) (timeout_us : Option ℕ)
    (writer_wait_registered late : Bool) : Prop :=
  deadlocks rwlock self = false → grantsWrite rwlock = false → expired timeout_us late = false →
    writer_wait_registered = false → rwlock.waiting_writers ≠ UINT32_MAX

variable {request : Request} {next : PthreadRwlockPrivate × Pc} {late : Bool}

theorem Outcome.of_same {registered : ℕ} {thread : Option ℕ}
    (h : Sane rwlock) (hsame : SameHoldings rwlock next.1)
    (hwaiting : next.1.waiting_writers + registered
      = rwlock.waiting_writers + next.2.registered) (hle : next.1.waiting_writers ≤ UINT32_MAX)
    (hgain : gain request next.2 = 0) (hlive : next.2 ≠ .aborted) :
    Outcome thread request registered rwlock next where
  sane := hsame.sane h
  waiting := hwaiting
  waiting_le := hle
  holds t := by
    rw [hsame.holds t, hgain, ite_self, add_zero]
  same _ := hsame
  live := hlive

variable {registered : Bool} {c n : ℕ} {call : Call}

theorem unregister_waiting (hreg : (loop registered).registered ≤ rwlock.waiting_writers) :
    (unregisterWriterWait rwlock registered).waiting_writers
      + (loop registered).registered = rwlock.waiting_writers := by
  cases registered with
  | false => simp [unregisterWriterWait, registered]
  | true =>
    have hpos : 0 < rwlock.waiting_writers := hreg
    simp only [unregisterWriterWait, if_true, registered]
    rw [decrement_of_pos hpos]
    omega

theorem unregister_same (rwlock : PthreadRwlockPrivate) (registered : Bool) :
    SameHoldings rwlock (unregisterWriterWait rwlock registered) := by
  cases registered with
  | false => exact .refl
  | true => exact sameHoldings_waiting _

theorem register_same (registered : Bool) :
    SameHoldings rwlock (registerWriterWait rwlock registered) := by
  cases registered with
  | false => exact sameHoldings_waiting _
  | true => exact .refl

section

variable (h : Sane rwlock) (hwait : rwlock.waiting_writers ≤ UINT32_MAX)

include h hwait

theorem Outcome.addReader (hgrant : grantsRead rwlock self = true)
    (hfits : ReadFits rwlock self) (hgain : gain request (.returned .ok) = 1) :
    Outcome (some self) request 0 rwlock (rwlockAddReader rwlock self, .returned .ok) := by
  have hlt : rwlock.reader_count < UINT32_MAX :=
    lt_of_le_of_ne h.reader_count_le (hfits hgrant)
  obtain ⟨hsane, hholds⟩ := h.addReader hgrant hlt
  refine ⟨hsane, by simp [rwlockAddReader, registered], hwait, ?_, ?_, by simp⟩
  · intro t
    rw [hholds t, hgain]
    simp only [some.injEq, eq_comm (a := self)]
    split <;> simp
  · intro hzero
    rw [hgain] at hzero
    cases hzero

/-- **One pass of a reader.** -/
theorem lockPass_read (hfits : ReadFits rwlock self) :
    Outcome (some self) (.lock false timeout_us) 0 rwlock
      (lockPass rwlock self false timeout_us false late) := by
  rw [lockPass, if_neg (by simp)]
  by_cases hgrant : grantsRead rwlock self = true
  · rw [if_pos hgrant]
    exact .addReader h hwait hgrant hfits (by simp [gain])
  · rw [if_neg hgrant, endPass]
    split
    · exact .of_same h (unregister_same _ false) rfl hwait rfl (by simp)
    · exact .of_same h .refl rfl hwait rfl (by simp)

/-- **One pass of a writer.** It leaves the loop without its registration, and stays in it
with one. -/
theorem lockPass_write (hreg : (loop registered).registered ≤ rwlock.waiting_writers)
    (hfits : WaitFits rwlock self timeout_us registered late) :
    Outcome (some self) (.lock true timeout_us) (loop registered).registered rwlock
      (lockPass rwlock self true timeout_us registered late) := by
  have hleave := unregister_waiting hreg
  rw [lockPass, if_pos rfl]
  by_cases hdead : deadlocks rwlock self = true
  · rw [if_pos hdead]
    exact .of_same h (unregister_same _ registered) hleave (by dsimp only; omega) rfl
      (by simp)
  rw [if_neg hdead]
  by_cases hgrant : grantsWrite rwlock = true
  · rw [if_pos hgrant]
    have hsame := unregister_same rwlock registered
    have hgrant' : grantsWrite (unregisterWriterWait rwlock registered) = true := by
      rw [hsame]
      exact hgrant
    obtain ⟨hsane, hholds⟩ := (hsame.sane h).setWriter self hgrant'
    refine ⟨hsane, hleave, ?_, ?_, by simp [gain], by simp⟩
    · show (unregisterWriterWait rwlock registered).waiting_writers ≤ UINT32_MAX
      omega
    · intro t
      rw [hholds t, hsame.holds t]
      simp only [gain, some.injEq, eq_comm (a := self)]
      split <;> simp
  rw [if_neg hgrant, endPass]
  by_cases hlate : expired timeout_us late = true
  · -- a registration made in this pass is undone before the mutex is given up
    rw [if_pos hlate]
    have hback : (unregisterWriterWait (registerWriterWait rwlock registered) true).waiting_writers
        + (loop registered).registered = rwlock.waiting_writers := by
      cases registered with
      | false => simp [unregisterWriterWait, registerWriterWait, registered]
      | true => exact hleave
    exact .of_same h ((register_same registered).trans (unregister_same _ true)) hback
      (by dsimp only; omega) rfl (by simp)
  · rw [if_neg hlate]
    cases registered with
    | false =>
      have hroom := hfits (by simpa using hdead) (by simpa using hgrant) (by simpa using hlate) rfl
      have hup : increment rwlock.waiting_writers = rwlock.waiting_writers + 1 :=
        increment_of_lt (lt_of_le_of_ne hwait hroom)
      refine .of_same h (register_same false) ?_ ?_ rfl (by simp)
      · simp [registerWriterWait, registered, hup]
      · simp only [registerWriterWait, Bool.false_eq_true, if_false, hup]
        omega
    | true => exact .of_same h .refl rfl hwait rfl (by simp)

/-- **A call up to its return or to its loop.** -/
theorem enter_outcome {thread : Option ℕ}
    (hfits : ∀ self, thread = some self → request = .tryrdlock → ReadFits rwlock self) :
    Outcome thread request 0 rwlock (enter rwlock thread request) := by
  cases thread with
  | none =>
    refine .of_same h .refl rfl hwait ?_ (by simp [enter])
    cases request <;> simp [enter, gain]
  | some self =>
    cases request with
    | lock write timeout_us =>
      exact .of_same h .refl rfl hwait rfl (by simp [enter])
    | tryrdlock =>
      rw [enter, pthreadRwlockTryrdlock]
      by_cases hgrant : grantsRead rwlock self = true
      · rw [if_pos hgrant]
        exact .addReader h hwait hgrant (hfits self rfl rfl) (by simp [gain])
      · rw [if_neg hgrant]
        exact .of_same h .refl rfl hwait rfl (by simp)
    | trywrlock =>
      rw [enter, pthreadRwlockTrywrlock]
      by_cases hdead : deadlocks rwlock self = true
      · rw [if_pos hdead]
        exact .of_same h .refl rfl hwait rfl (by simp)
      rw [if_neg hdead]
      by_cases hgrant : grantsWrite rwlock = true
      · rw [if_pos hgrant]
        obtain ⟨hsane, hholds⟩ := h.setWriter self hgrant
        refine ⟨hsane, rfl, hwait, ?_, by simp [gain], by simp⟩
        intro t
        rw [hholds t]
        simp only [gain, some.injEq, eq_comm (a := self)]
        split <;> simp
      · rw [if_neg hgrant]
        exact .of_same h .refl rfl hwait rfl (by simp)
    | unlock =>
      rw [enter]
      rcases h.unlock self with ⟨hpos, hok, hsane, hwaiting, hholds⟩ | ⟨hzero, heq⟩
      · refine ⟨hsane, ?_, hwaiting ▸ hwait, ?_, ?_, ?_⟩
        · rw [hok, hwaiting]
          rfl
        · intro t
          have := hholds t
          rw [hok]
          simp only [gain, some.injEq, eq_comm (a := self)]
          split at this
          · rw [if_pos ‹_›]
            omega
          · rw [if_neg ‹_›]
            omega
        · rw [hok]
          simp [gain]
        · rw [hok]
          simp
      · rw [heq]
        exact .of_same h .refl rfl hwait rfl (by simp)

end

/-! ## The invariant of a run -/

/-- A call that is registered as a waiting writer. -/
def Call.waits (call : Call) : Bool := call.pc == .loop true

/-- The holds that a call has gained a thread. -/
def Call.gains (thread : ℕ) (call : Call) : ℤ :=
  if call.self = some thread then gain call.request call.pc else 0

theorem registered_eq (call : Call) :
    ((call.pc.registered : ℕ) : ℤ) = if call.waits then 1 else 0 := by
  unfold waits
  cases call.pc with
  | loop registered => cases registered <;> simp [registered]
  | returned | aborted => simp [registered]

/-- What the steps of a call have done: it is registered as often as its steps say, and has
gained what its steps have gained; without a gain none of them touched the holdings. -/
structure CallOk (log : List (Entry PthreadRwlockPrivate)) (c : ℕ) (call : Call) : Prop where
  reader : ∀ timeout_us, call.request = .lock false timeout_us → call.pc ≠ .loop true
  live : call.pc ≠ .aborted
  same : gain call.request call.pc = 0 →
    ∀ entry ∈ log, entry.agent = c → SameHoldings entry.before entry.after
  waiting : net (fun rwlock => rwlock.waiting_writers) c log = call.pc.registered
  holds : ∀ t, net (fun rwlock => rwlock.holds t) c log = call.gains t

/-- The invariant of a run. -/
structure Inv (σ : State) : Prop where
  sane : Sane σ.rwlock
  waiting : (σ.rwlock.waiting_writers : ℤ)
    = (σ.calls.map (fun call => (call.pc.registered : ℤ))).sum
  waiting_le : σ.rwlock.waiting_writers ≤ UINT32_MAX
  fresh : ∀ entry ∈ σ.log, entry.agent < σ.calls.length
  calls : ∀ c call, σ.calls[c]? = some call → CallOk σ.log c call
  held : ∀ t, (σ.rwlock.holds t : ℤ) = (σ.calls.map (Call.gains t)).sum

variable {σ : State}

theorem inv_init : Inv init where
  sane := sane_init
  waiting := by simp [init]
  waiting_le := by simp [init]
  fresh := by simp [init]
  calls := by simp [init]
  held t := by simp [init, holds]

theorem Inv.registered_le (h : Inv σ) (hc : σ.calls[c]? = some call) :
    call.pc.registered ≤ σ.rwlock.waiting_writers := by
  have hmem : (call.pc.registered : ℤ) ∈ σ.calls.map (fun call => (call.pc.registered : ℤ)) :=
    mem_map_of_mem (mem_of_getElem? hc)
  have hle := single_le_sum (by simp) _ hmem
  rw [← h.waiting] at hle
  omega

theorem Inv.append (h : Inv σ) (self : Option ℕ) (request : Request) :
    Inv { σ with
      calls := σ.calls ++ [{ self := self, request := request, pc := .loop false }] } where
  sane := h.sane
  waiting := by
    rw [List.map_append, List.sum_append, ← h.waiting]
    simp [registered]
  waiting_le := h.waiting_le
  fresh entry hentry := by
    have := h.fresh entry hentry
    simp only [length_append, length_singleton]
    omega
  calls c call hc := by
    rw [getElem?_append] at hc
    split at hc
    · exact h.calls c call hc
    · have hlen : c = σ.calls.length := by
        have := (List.getElem?_eq_some_iff.mp hc).1
        simp only [length_singleton] at this
        omega
      subst hlen
      rw [Nat.sub_self, getElem?_cons_zero, Option.some.injEq] at hc
      subst hc
      have hnone : ∀ f, net f σ.calls.length σ.log = 0 := fun f => net_of_fresh f h.fresh
      refine ⟨by simp, by simp, ?_, by simp [hnone, registered], ?_⟩
      · intro _ entry hentry hagent
        have := h.fresh entry hentry
        omega
      · intro t
        cases request <;> simp [hnone, Call.gains, gain]
  held t := by
    rw [List.map_append, List.sum_append, ← h.held t]
    cases request <;> simp [gains, gain]

/-- **The step lemma.** A call that has gained nothing yet takes a step. -/
theorem Inv.record (h : Inv σ) (hc : σ.calls[c]? = some call)
    (hgain : gain call.request call.pc = 0)
    (hreader : ∀ timeout_us, call.request = .lock false timeout_us → next.2 ≠ .loop true)
    (ho : Outcome call.self call.request call.pc.registered σ.rwlock next) :
    Inv (σ.record c call next) := by
  have hlt : c < σ.calls.length := (List.getElem?_eq_some_iff.mp hc).1
  have hgains : ∀ t, call.gains t = 0 := fun t => by rw [gains, hgain, ite_self]
  have hok := h.calls c call hc
  refine ⟨ho.sane, ?_, ho.waiting_le, ?_, ?_, ?_⟩
  · have hwaiting := ho.waiting
    have hsum := h.waiting
    rw [State.record, sum_map_set _ _ hc]
    dsimp only
    omega
  · intro entry hentry
    simp only [State.record, mem_cons, length_set] at hentry ⊢
    rcases hentry with rfl | hentry
    · exact hlt
    · exact h.fresh entry hentry
  · intro d other hd
    simp only [State.record] at hd ⊢
    rw [getElem?_set] at hd
    by_cases hself : c = d
    · subst hself
      rw [if_pos rfl, if_pos hlt, some.injEq] at hd
      subst hd
      refine ⟨hreader, ho.live, ?_, ?_, ?_⟩
      · intro hzero entry hentry hagent
        rw [mem_cons] at hentry
        rcases hentry with rfl | hentry
        · exact ho.same hzero
        · exact hok.same hgain entry hentry hagent
      · have hwaiting := ho.waiting
        have hold := hok.waiting
        rw [net_cons_self]
        dsimp only
        omega
      · intro t
        have hholds := ho.holds t
        have hold := hok.holds t
        rw [hgains t] at hold
        rw [net_cons_self, hold, hholds]
        simp only [gains]
        omega
    · rw [if_neg hself] at hd
      have hother := h.calls d other hd
      refine ⟨hother.reader, hother.live, ?_, ?_, ?_⟩
      · intro hzero entry hentry hagent
        rw [mem_cons] at hentry
        rcases hentry with rfl | hentry
        · exact absurd hagent hself
        · exact hother.same hzero entry hentry hagent
      · rw [net_cons_of_ne _ hself]
        exact hother.waiting
      · intro t
        rw [net_cons_of_ne _ hself]
        exact hother.holds t
  · intro t
    have hholds := ho.holds t
    have hsum := h.held t
    rw [State.record, sum_map_set _ _ hc, hgains t]
    simp only [gains]
    omega

/-! ## Runs -/

/-- A call in the loop of `RwlockLockCooperative`. -/
def loopCall (self : ℕ) (write : Bool) (timeout_us : Option ℕ) (registered : Bool) : Call where
  self := some self
  request := .lock write timeout_us
  pc := .loop registered

/-- **What a step must not do**: count a reader past the end of `reader_count`, or put a
writer to sleep past the end of `waiting_writers`. -/
def Fits (σ : State) : State.Op → Prop
  | .start (some self) .tryrdlock => ReadFits σ.rwlock self
  | .start _ _ => True
  | .pass c late =>
    ∀ self write timeout_us registered,
      σ.calls[c]? = some (loopCall self write timeout_us registered) →
      if write then WaitFits σ.rwlock self timeout_us registered late
      else ReadFits σ.rwlock self

theorem nextPass_some (h : nextPass rwlock late call = some next) :
    ∃ self write timeout_us registered, call = loopCall self write timeout_us registered ∧
      next = lockPass rwlock self write timeout_us registered late := by
  unfold nextPass at h
  split at h
  next self write timeout_us registered hself hrequest hpc =>
    refine ⟨self, write, timeout_us, registered, ?_, (some.inj h).symm⟩
    rw [loopCall, ← hself, ← hrequest, ← hpc]
  · cases h

theorem lockPass_reader : (lockPass rwlock self false timeout_us false late).2 ≠ .loop true := by
  rw [lockPass, if_neg (by simp)]
  split
  · simp
  · rw [endPass]
    split <;> simp

theorem Inv.start (h : Inv σ) (self : Option ℕ) (request : Request)
    (hfits : Fits σ (.start self request)) : Inv (σ.start self request) := by
  refine (h.append self request).record (c := σ.calls.length) (by simp) ?_ ?_ ?_
  · cases request <;> simp [gain]
  · rintro timeout_us rfl
    cases self <;> simp [enter]
  · refine enter_outcome h.sane h.waiting_le ?_
    rintro thread rfl rfl
    exact hfits

theorem Inv.pass (h : Inv σ) (c : ℕ) (late : Bool) (hfits : Fits σ (.pass c late)) :
    Inv (σ.pass c late) := by
  unfold State.pass
  split
  · exact h
  rename_i call hc
  split
  · exact h
  rename_i next hnext
  obtain ⟨self, write, timeout_us, registered, rfl, rfl⟩ := nextPass_some hnext
  have hroom := hfits self write timeout_us registered hc
  cases write with
  | false =>
    -- the flag of a reader is never set
    have hflag : registered = false := by
      have := (h.calls c _ hc).reader timeout_us rfl
      simpa [loopCall] using this
    subst hflag
    refine h.record hc rfl (fun _ _ => lockPass_reader) ?_
    exact lockPass_read h.sane h.waiting_le (by simpa using hroom)
  | true =>
    refine h.record hc rfl (by simp [loopCall]) ?_
    exact lockPass_write h.sane h.waiting_le (h.registered_le hc) (by simpa using hroom)

theorem Inv.step (h : Inv σ) (op : State.Op) (hfits : Fits σ op) : Inv (σ.step op) := by
  cases op with
  | start self request => exact h.start self request hfits
  | pass c late => exact h.pass c late hfits

/-- **What holds of a lock and its calls** in every state of a good run. -/
structure Sound (σ : State) : Prop where
  accounts : Accounts σ.rwlock
  /-- `waiting_writers` counts the blocking write locks that are registered. -/
  waiting_writers : σ.rwlock.waiting_writers = σ.calls.countP Call.waits
  /-- A thread holds what its successful calls have gained it. -/
  held : ∀ t, (σ.rwlock.holds t : ℤ) = (σ.calls.map (Call.gains t)).sum
  /-- A call that has returned an error: no step of it touched the holdings, and its steps
  together have not changed `waiting_writers`. -/
  errors : ∀ c call result, σ.calls[c]? = some call → call.pc = .returned result →
    result ≠ .ok →
      (∀ entry ∈ σ.log, entry.agent = c → SameHoldings entry.before entry.after) ∧
        net (fun rwlock => rwlock.waiting_writers) c σ.log = 0
  /-- An unlock from here succeeds iff its thread holds the lock, and gives back one hold. -/
  unlocks : ∀ self, ((pthreadRwlockUnlock σ.rwlock self).2 = .returned .ok ↔
      0 < σ.rwlock.holds self) ∧
    ((pthreadRwlockUnlock σ.rwlock self).2 = .returned .ok →
      ∀ t, (pthreadRwlockUnlock σ.rwlock self).1.holds t + (if t = self then 1 else 0)
        = σ.rwlock.holds t)
  /-- No call has run into the `EXIT_IF` of `PthreadRwlockUnlock`. -/
  live : ∀ call ∈ σ.calls, call.pc ≠ .aborted

theorem Inv.sound (h : Inv σ) : Sound σ where
  accounts := h.sane.toAccounts
  waiting_writers := by
    have hsum := h.waiting
    simp only [registered_eq] at hsum
    rw [← countP_eq_sum] at hsum
    exact_mod_cast hsum
  held := h.held
  errors c call result hc hpc herror := by
    have hok := h.calls c call hc
    have hgain : gain call.request call.pc = 0 := by
      rw [hpc]
      cases result <;> simp_all [gain]
    refine ⟨hok.same hgain, ?_⟩
    rw [hok.waiting, hpc]
    rfl
  unlocks self := by
    rcases h.sane.unlock self with ⟨hpos, hok, -, -, hholds⟩ | ⟨hzero, heq⟩
    · exact ⟨⟨fun _ => hpos, fun _ => hok⟩, fun _ => hholds⟩
    · rw [heq, hzero]
      simp
  live call hcall := by
    obtain ⟨c, hc⟩ := mem_iff_getElem?.mp hcall
    exact (h.calls c call hc).live

theorem readers_addReader_ne_nil (rwlock : PthreadRwlockPrivate) (self : ℕ) :
    (rwlockAddReader rwlock self).readers ≠ [] := by
  unfold rwlockAddReader
  split
  next hfound =>
    have hmem := find_isSome.mp hfound
    intro hnil
    have hmap := congrArg (map Reader.thread) hnil
    rw [map_thread_countUp] at hmap
    rw [hmap] at hmem
    simp at hmem
  · simp

/-- A reader that is counted past the end of `reader_count`: the count is 0, the list is
not empty. -/
theorem not_accounts_addReader (hmax : rwlock.reader_count = UINT32_MAX) :
    ¬ Accounts (rwlockAddReader rwlock self) := by
  intro h
  have hzero : (rwlockAddReader rwlock self).reader_count = 0 := by
    rw [rwlockAddReader, hmax, increment_max]
  have hsum := h.reader_count
  rw [hzero] at hsum
  obtain ⟨reader, hreader⟩ :=
    exists_mem_of_ne_nil _ (readers_addReader_ne_nil rwlock self)
  have hle := single_le_sum (l := (rwlockAddReader rwlock self).readers.map count)
    (by simp) reader.count (mem_map_of_mem hreader)
  have hpos := h.positive reader hreader
  omega

/-- **A step that does not fit** leaves a state in which the numbers are wrong. -/
theorem fits_of_sound {op : State.Op} (hsound : Sound (σ.step op)) : Fits σ op := by
  cases op with
  | start thread request =>
    cases thread with
    | none => trivial
    | some self =>
      cases request with
      | tryrdlock =>
        intro hgrant hmax
        have haccounts := hsound.accounts
        have hlock : (σ.step (.start (some self) .tryrdlock)).rwlock
            = rwlockAddReader σ.rwlock self := by
          simp [step, start, record, enter, pthreadRwlockTryrdlock, hgrant]
        rw [hlock] at haccounts
        exact not_accounts_addReader hmax haccounts
      | lock | trywrlock | unlock => trivial
  | pass c late =>
    intro self write timeout_us registered hc
    have hstep : σ.step (.pass c late) = σ.record c (loopCall self write timeout_us registered)
        (lockPass σ.rwlock self write timeout_us registered late) := by
      simp [State.step, State.pass, nextPass, loopCall, hc]
    rw [hstep] at hsound
    cases write with
    | false =>
      rw [if_neg (by simp)]
      intro hgrant hmax
      have haccounts := hsound.accounts
      simp only [record, lockPass, Bool.false_eq_true, if_false, hgrant, if_true] at haccounts
      exact not_accounts_addReader hmax haccounts
    | true =>
      rw [if_pos rfl]
      rintro hdead hgrant hlate rfl hmax
      -- the count is 0, and the call is registered
      have hpass : lockPass σ.rwlock self true timeout_us false late
          = ({ σ.rwlock with waiting_writers := 0 }, .loop true) := by
        simp [lockPass, endPass, hdead, hgrant, hlate, registerWriterWait, hmax]
      have hcount := hsound.waiting_writers
      rw [hpass] at hcount
      have hlt : c < σ.calls.length := (List.getElem?_eq_some_iff.mp hc).1
      have hnone := countP_eq_zero.mp hcount.symm
      refine hnone (loopCall self true timeout_us true) ?_ (by simp [waits, loopCall])
      exact mem_iff_getElem?.mpr ⟨c, by simp [record, loopCall, hlt]⟩

theorem inv_run {ops : List State.Op}
    (h : ∀ n op, ops[n]? = some op → Fits (run (ops.take n)) op) (n : ℕ) :
    Inv (run (ops.take n)) := by
  induction n with
  | zero => simpa [run] using inv_init
  | succ n ih =>
    cases hop : ops[n]? with
    | none =>
      rw [take_of_length_le (by rw [getElem?_eq_none_iff] at hop; omega)]
      rwa [take_of_length_le (getElem?_eq_none_iff.mp hop)] at ih
    | some op =>
      rw [take_add_one, hop, run, foldl_append]
      exact ih.step op (h n op hop)

/-- **The accounting of a reader-writer lock.** Over every interleaving, the numbers are
right in every state reached iff no read lock is granted past the end of `reader_count` and
no writer goes to sleep past the end of `waiting_writers`. -/
theorem rwlock_accounting (ops : List State.Op) :
    (∀ n, Sound (State.run (ops.take n))) ↔
      ∀ n op, ops[n]? = some op → Fits (State.run (ops.take n)) op := by
  constructor
  · intro hsound n op hop
    refine fits_of_sound ?_
    have := hsound (n + 1)
    rwa [take_add_one, hop, State.run, foldl_append] at this
  · intro hfits n
    exact (inv_run hfits n).sound

/-! ## One thread that reads too often -/

theorem run_replicate (hpos : 0 < n) (hle : n ≤ UINT32_MAX) :
    (run (replicate n (.start (some 0) .tryrdlock))).rwlock
      = { reader_count := n, readers := [{ thread := 0, count := n }] } := by
  induction n with
  | zero => omega
  | succ n ih =>
    have hup : increment n = n + 1 := increment_of_lt hle
    rw [replicate_succ', run, foldl_append]
    rcases Nat.eq_zero_or_pos n with rfl | hn
    · simp [step, start, record, enter, pthreadRwlockTryrdlock,
        init, grantsRead, rwlockAddReader, rwlockFindReader, hup]
    · have ih' := ih hn (by omega)
      rw [run] at ih'
      simp [step, start, record, enter, pthreadRwlockTryrdlock,
        grantsRead, rwlockAddReader, rwlockFindReader, countUp, ih', hup]

theorem run_replicate_succ (hmax : n = UINT32_MAX) :
    (run (replicate (n + 1) (.start (some 0) .tryrdlock))).rwlock
      = { reader_count := 0, readers := [{ thread := 0, count := 0 }] } := by
  have hpos : 0 < n := by
    rw [hmax, UINT32_MAX]
    norm_num
  have hup : increment n = 0 := by rw [hmax, increment_max]
  have hlast := run_replicate hpos hmax.le
  rw [run] at hlast
  rw [replicate_succ', run, foldl_append]
  simp [step, start, record, enter, pthreadRwlockTryrdlock,
    grantsRead, rwlockAddReader, rwlockFindReader, countUp, hlast, hup]

/-- **2^32 read locks of one thread**: the lock then has an entry without a read lock in it,
and another thread would get the write lock. -/
theorem rwlock_overflow : ∃ ops : List State.Op, ops.length = UINT32_MAX + 1 ∧
    (∀ op ∈ ops, op = .start (some 0) .tryrdlock) ∧
    ¬ Accounts (State.run ops).rwlock ∧ grantsWrite (State.run ops).rwlock = true := by
  refine ⟨.replicate (UINT32_MAX + 1) (.start (some 0) .tryrdlock), length_replicate,
    fun op hop => eq_of_mem_replicate hop, ?_⟩
  rw [run_replicate_succ rfl]
  refine ⟨fun h => ?_, by simp [grantsWrite]⟩
  have := h.positive { thread := 0, count := 0 } (by simp)
  simp at this

end MagnusPS5.Kernel.Rwlock
