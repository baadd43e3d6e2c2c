/-
Safety of the stream buffer: what `Map` hands out meets no committed region that the GPU
may still use.

The invariant says where the guard of every such region is: among the watches of the
current lap, or among those of the lap before that have not been waited for. Everything
of an older lap is guarded by the first watch of its successor, because ticks do not
decrease.
-/
import MagnusPS5.Graphics.StreamBuffer

namespace MagnusPS5.Graphics.StreamBuffer

open Lib (Guarded)
open Kernel (UINT64_MAX addU64 addU64_of_le)
open Nat List TickScheduler.Progress Option

variable {σ : Type}

/-! ## Alignment -/

variable {alignment i tick : ℕ} {watches : List Watch}

theorem alignUp_spec {value result : ℕ} (h : alignUp value alignment = some result) :
    value ≤ result ∧ (alignment ≠ 0 → alignment ∣ result) := by
  unfold alignUp at h
  by_cases h0 : alignment = 0
  · rw [if_pos h0, some.injEq] at h
    exact ⟨h.le, fun hne => absurd h0 hne⟩
  · rw [if_neg h0] at h
    by_cases hr : value % alignment = 0
    · rw [if_pos hr, some.injEq] at h
      exact ⟨h.le, fun _ => h ▸ dvd_of_mod_eq_zero hr⟩
    · rw [if_neg hr] at h
      split at h
      · cases h
      · rw [some.injEq] at h
        refine ⟨by omega, fun _ => ?_⟩
        have hlt : value % alignment < alignment := mod_lt _ (pos_of_ne_zero h0)
        have hsplit : result = alignment * (value / alignment) + alignment := by
          have := div_add_mod value alignment
          omega
        rw [hsplit]
        exact dvd_add (dvd_mul_right _ _) (dvd_refl _)

theorem alignUp_zero (alignment : ℕ) : alignUp 0 alignment = some 0 := by
  unfold alignUp
  rw [zero_mod, if_pos rfl, ite_self]

/-- The reservation is at least as large, and its alignment at least as strict, as
asked for. -/
theorem normalizeReservation_spec {coherent : Bool} {atom size size' alignment' : ℕ}
    (h : normalizeReservation coherent atom size alignment = some (size', alignment')) :
    size ≤ size' ∧ (alignment ≠ 0 → alignment' ≠ 0 ∧ alignment ∣ alignment') := by
  unfold normalizeReservation at h
  cases coherent with
  | true =>
    rw [if_pos rfl, some.injEq, Prod.mk.injEq] at h
    obtain ⟨rfl, rfl⟩ := h
    exact ⟨le_refl _, fun hne => ⟨hne, dvd_refl _⟩⟩
  | false =>
    rw [if_neg nofun] at h
    cases hup : alignUp size atom with
    | none =>
      rw [hup] at h
      cases h
    | some up =>
      simp only [hup] at h
      split at h
      · cases h
      next hover =>
        rw [some.injEq, Prod.mk.injEq] at h
        refine ⟨h.1 ▸ (alignUp_spec hup).1, fun hne => ?_⟩
        rw [if_neg hne] at h
        rw [← h.2]
        -- the least common multiple of the alignment and the atom
        have hgcd : alignment.gcd atom ∣ alignment := Nat.gcd_dvd_left _ _
        have hquot : 0 < alignment / alignment.gcd atom :=
          div_pos (le_of_dvd (pos_of_ne_zero hne) hgcd) (gcd_pos_of_pos_left _ (pos_of_ne_zero hne))
        constructor
        · intro hmul
          obtain h0 | h0 := Nat.mul_eq_zero.mp hmul
          · exact hquot.ne' h0
          · rw [h0, Nat.div_zero, Nat.gcd_zero_right] at hover
            rw [h0, gcd_zero_right] at hquot
            exact hover ⟨hne, hquot⟩
        · obtain ⟨k, hk⟩ := Nat.gcd_dvd_right alignment atom
          refine ⟨k, ?_⟩
          calc alignment / alignment.gcd atom * atom
              = alignment / alignment.gcd atom * (alignment.gcd atom * k) := by rw [← hk]
            _ = alignment / alignment.gcd atom * alignment.gcd atom * k :=
                (mul_assoc _ _ _).symm
            _ = alignment * k := by rw [Nat.div_mul_cancel hgcd]

/-! ## Regions and watches -/

/-- A committed region: its memory and the tick of its commit. -/
structure Region where
  start : ℕ
  size : ℕ
  tick : ℕ
  deriving DecidableEq

variable (b : StreamBuffer)

/-- The watches of the current lap. -/
def live : List Watch :=
  b.m_current_watches.take b.m_current_watch_cursor

/-- The watches `cursor`, …, `mark - 1` of a list. -/
def between (watches : List Watch) (cursor mark : ℕ) : List Watch :=
  (watches.take mark).drop cursor

/-- What a wait has before it: nothing without an invalidation mark. -/
def ahead (watches : List Watch) (cursor : ℕ) : Option ℕ → List Watch
  | none => []
  | some mark => between watches cursor mark

/-- The watches of the lap before that have not been waited for. -/
def pending : List Watch :=
  ahead b.m_previous_watches b.m_wait_cursor b.m_invalidation_mark

theorem between_cons {cursor left : ℕ} (h : cursor + (left + 1) ≤ watches.length) :
    between watches cursor (cursor + (left + 1))
      = watches.getD cursor noWatch :: between watches (cursor + 1) (cursor + 1 + left) := by
  unfold between
  have hlt : cursor < (watches.take (cursor + (left + 1))).length := by
    rw [length_take]
    omega
  have htake : watches.take (cursor + (left + 1)) = watches.take (cursor + 1 + left) := by
    rw [show cursor + (left + 1) = cursor + 1 + left by omega]
  rw [drop_eq_getElem_cons hlt, getElem_take, getD_eq_getElem _ _ (by omega)]
  simp only [htake]

theorem between_self (watches : List Watch) (cursor : ℕ) : between watches cursor cursor = [] := by
  exact drop_eq_nil_of_le (by rw [length_take]; omega)

/-! ## The wait -/

section

variable (S : TickScheduler σ) (usage : MemoryUsage)

include S usage

theorem progress_round (t : ℕ) (s : σ) : let s' := S.wait t s
    let s'' := if usage = .download then S.waitPriorityOperations t s' else s'
    S.Progress s s'' ∧ t ≤ S.KnownGpuTick s'' := by
  have hwait : S.Progress s (S.wait t s) := ⟨S.current_wait t s, S.known_wait t s⟩
  have hfree := S.free_wait t s
  by_cases hu : usage = .download
  · simp only [hu, if_true]
    have hprio := S.known_priority t (S.wait t s)
    exact ⟨hwait.trans ⟨S.current_priority t _, hprio⟩, hfree.trans hprio⟩
  · simp only [hu, if_false]
    exact ⟨hwait, hfree⟩

/-- **The wait.** A loop that returns true has come to the requested bound or to the end
of the watches, and what was guarded is free or guarded by the watches left over. -/
theorem waitLoop_spec (watches : List Watch)
    (requested : ℕ) (allow_wait : Bool) (left cursor bound : ℕ) (s : σ)
    (hlen : cursor + left ≤ watches.length) :
    let r := waitLoop S usage watches requested allow_wait left cursor bound s
    S.Progress s r.2.2.2 ∧
      (r.1 = true →
        ∃ left' ≤ left, r.2.1 + left' = cursor + left ∧ (requested ≤ r.2.2.1 ∨ left' = 0) ∧
          ∀ t p, S.KnownGpuTick r.2.2.2 < t →
            Guarded t p bound (between watches cursor (cursor + left)) →
            Guarded t p r.2.2.1 (between watches r.2.1 (r.2.1 + left'))) := by
  induction left generalizing cursor bound s with
  | zero =>
    refine ⟨refl S s, fun _ => ⟨0, le_refl _, rfl, .inr rfl, ?_⟩⟩
    intro t p _ hg
    exact hg
  | succ left ih =>
    unfold waitLoop
    by_cases hreq : requested ≤ bound
    · simp only [hreq, if_true]
      refine ⟨refl S s, fun _ => ⟨left + 1, le_refl _, rfl, .inl trivial, ?_⟩⟩
      intro t p _ hg
      exact hg
    · simp only [hreq, if_false]
      have hfree : S.Progress s (S.isFree (watches.getD cursor noWatch).tick s).2 :=
        ⟨S.current_isFree _ s, S.known_isFree _ s⟩
      by_cases hstop :
          (S.isFree (watches.getD cursor noWatch).tick s).1 = false ∧ allow_wait = false
      · simp only [hstop, and_self, if_true]
        exact ⟨hfree, nofun⟩
      · simp only [hstop, if_false]
        obtain ⟨hround, htick⟩ := progress_round S usage (watches.getD cursor noWatch).tick
          (S.isFree (watches.getD cursor noWatch).tick s).2
        obtain ⟨hrest, hok⟩ := ih (cursor + 1) (watches.getD cursor noWatch).upper_bound _
          (by omega)
        refine ⟨(hfree.trans hround).trans hrest, fun h => ?_⟩
        obtain ⟨left', hle, hsum, hdone, hguard⟩ := hok h
        refine ⟨left', hle.trans (le_succ left), hsum.trans (by omega), hdone, ?_⟩
        intro t p ht hg
        rw [between_cons hlen] at hg
        -- the watch that was waited for guards nothing that is still in use
        exact hguard t p ht (hg.tail (htick.trans_lt (hrest.2.trans_lt ht)))

/-- **The wait of `Map`.** What is still in use after a wait that returned true starts
behind the requested bound, and is guarded by the watches left over. -/
theorem waitPendingOperations_spec
    (watches : List Watch) (invalidation_mark : Option ℕ) (requested : ℕ) (allow_wait : Bool)
    (cursor bound : ℕ) (s : σ)
    (hmark : ∀ mark, invalidation_mark = some mark → cursor ≤ mark ∧ mark ≤ watches.length) :
    let r := waitPendingOperations S usage watches invalidation_mark requested allow_wait
      cursor bound s
    S.Progress s r.2.2.2 ∧
      (r.1 = true →
        (∀ mark, invalidation_mark = some mark → r.2.1 ≤ mark) ∧
          ∀ t p, S.KnownGpuTick r.2.2.2 < t →
            Guarded t p bound (ahead watches cursor invalidation_mark) →
            Guarded t p r.2.2.1 (ahead watches r.2.1 invalidation_mark) ∧ requested ≤ p) := by
  cases invalidation_mark with
  | none =>
    refine ⟨refl S s, fun _ => ⟨?_, ?_⟩⟩
    · intro mark h
      cases h
    intro t p _ hg
    exact hg.elim
  | some mark =>
    obtain ⟨hle, hlen⟩ := hmark mark rfl
    have hsum : cursor + (mark - cursor) = mark := by omega
    obtain ⟨hprog, hok⟩ := waitLoop_spec S usage watches requested allow_wait (mark - cursor)
      cursor bound s (by omega)
    refine ⟨hprog, fun h => ?_⟩
    obtain ⟨left', hle', hsum', hdone, hguard⟩ := hok h
    rw [hsum] at hsum' hguard
    rw [hsum'] at hguard
    refine ⟨?_, ?_⟩
    · intro m hm
      cases hm
      exact Nat.le.intro hsum'
    intro t p ht hg
    have hrest := hguard t p ht hg
    refine ⟨hrest, ?_⟩
    obtain hreq | hzero := hdone
    · exact hreq.trans hrest.base_le
    · -- nothing is left over, so nothing is guarded
      rw [hzero, add_zero] at hsum'
      rw [hsum', between_self] at hrest
      exact hrest.elim

end

/-! ## The invariant -/

/-- Where the guard of a region is: in the current lap, or in the part of the lap before
that has not been waited for. -/
def Watched (c : Region) : Prop :=
  (Guarded c.tick c.start 0 b.live ∧ c.start + c.size ≤ b.m_offset) ∨
    (Guarded c.tick c.start b.m_wait_bound b.pending ∧ ∀ w ∈ b.live, c.tick ≤ w.tick)

/-- What holds of the buffer, of the scheduler's state `s` and of the regions committed so
far. -/
structure Inv (S : TickScheduler σ) (b : StreamBuffer) (s : σ) (regions : List Region) :
    Prop where
  mapped_le : b.m_mapped_size ≤ b.size
  offset_le : b.m_offset ≤ UINT64_MAX
  cursor_lt : b.m_current_watch_cursor < b.m_current_watches.length
  wait_le : ∀ mark, b.m_invalidation_mark = some mark →
    b.m_wait_cursor ≤ mark ∧ mark ≤ b.m_previous_watches.length
  previous_pos : 0 < b.m_previous_watches.length
  started : 0 < b.m_offset → b.live ≠ []
  bounds : ∀ w ∈ b.live, w.upper_bound ≤ b.m_offset
  ticks : ∀ c ∈ regions, c.tick ≤ S.CurrentTick s
  watched : ∀ c ∈ regions, S.KnownGpuTick s < c.tick → b.Watched c

variable {S : TickScheduler σ} {b : StreamBuffer} {regions : List Region}

theorem Inv.progress {s s' : σ} (h : Inv S b s regions) (hp : S.Progress s s') :
    Inv S b s' regions :=
  { h with
    ticks := fun c hc => (h.ticks c hc).trans hp.1
    watched := fun c hc hlt => h.watched c hc (hp.2.trans_lt hlt) }

theorem inv_new (S : TickScheduler σ) (size : ℕ) (size_le : size ≤ UINT64_MAX)
    (mapped is_coherent : Bool) (usage : MemoryUsage) (atom : ℕ) (s : σ) :
    Inv S (new size size_le mapped is_coherent usage atom) s [] where
  mapped_le := zero_le _
  offset_le := zero_le _
  cursor_lt := by
    show 0 < ([] ++ replicate WATCHES_INITIAL_RESERVE noWatch).length
    rw [nil_append, length_replicate]
    decide
  wait_le := by
    intro mark h
    cases h
  previous_pos := by
    show 0 < ([] ++ replicate WATCHES_INITIAL_RESERVE noWatch).length
    rw [nil_append, length_replicate]
    decide
  started h := absurd h (lt_irrefl 0)
  bounds := by
    intro w hw
    nomatch hw
  ticks := by
    intro c hc
    nomatch hc
  watched := by
    intro c hc
    nomatch hc

/-! ## Commit -/

theorem take_set_succ (w : Watch) (h : i < watches.length) :
    (watches.set i w).take (i + 1) = watches.take i ++ [w] := by
  rw [take_succ_eq_append_getElem (by rw [length_set]; exact h), getElem_set_self,
    take_set_of_le (le_refl i)]

theorem take_reserve (grow_size : ℕ) (h : i ≤ watches.length) :
    (reserveWatches watches grow_size).take i = watches.take i :=
  take_append_of_le_length h

/-- The last watch of the current lap has the tick `tick`. -/
def SameTick (tick : ℕ) : Prop :=
  b.m_current_watch_cursor ≠ 0 ∧
    (b.m_current_watches.getD (b.m_current_watch_cursor - 1) noWatch).tick = tick

theorem commit_extend (h : b.SameTick tick) : b.commit tick = { b with
        m_offset := addU64 b.m_offset b.m_mapped_size
        m_current_watches := b.m_current_watches.set (b.m_current_watch_cursor - 1)
          ⟨tick, addU64 b.m_offset b.m_mapped_size⟩ } :=
  if_pos h

theorem commit_push (h : ¬ b.SameTick tick) : ∃ watches : List Watch, b.commit tick = { b with
          m_offset := addU64 b.m_offset b.m_mapped_size
          m_current_watches := watches.set b.m_current_watch_cursor
            ⟨tick, addU64 b.m_offset b.m_mapped_size⟩
          m_current_watch_cursor := b.m_current_watch_cursor + 1 } ∧
      (b.m_current_watch_cursor < b.m_current_watches.length →
        b.m_current_watch_cursor + 1 < watches.length ∧
          watches.take b.m_current_watch_cursor = b.live) := by
  refine ⟨_, if_neg h, fun hcur => ?_⟩
  by_cases hfull : b.m_current_watches.length ≤ b.m_current_watch_cursor + 1
  · rw [if_pos hfull]
    refine ⟨?_, take_reserve _ hcur.le⟩
    unfold reserveWatches
    rw [length_append, length_replicate]
    show b.m_current_watch_cursor + 1 < b.m_current_watches.length + 4096
    omega
  · rw [if_neg hfull]
    exact ⟨not_le.mp hfull, rfl⟩

/-- A commit adds a watch to the current lap, or moves the bound of its last one when
that has the same tick. -/
theorem commit_live (tick : ℕ) (hcur : b.m_current_watch_cursor < b.m_current_watches.length) :
    ∃ ws, (b.commit tick).live = ws ++ [⟨tick, addU64 b.m_offset b.m_mapped_size⟩] ∧
      (b.live = ws ∨ ∃ v : Watch, b.live = ws ++ [v] ∧ v.tick = tick) := by
  by_cases hlast : b.SameTick tick
  · rw [commit_extend hlast]
    unfold live
    obtain ⟨hne, htick⟩ := hlast
    obtain ⟨n, hn⟩ := exists_eq_succ_of_ne_zero hne
    rw [hn, Nat.succ_eq_add_one, Nat.add_sub_cancel] at htick ⊢
    rw [hn] at hcur
    refine ⟨b.m_current_watches.take n, take_set_succ _ (by omega), .inr ⟨_, ?_, htick⟩⟩
    rw [take_succ_eq_append_getElem (by omega), getD_eq_getElem _ _ (by omega)]
  · obtain ⟨watches, heq, hwatches⟩ := commit_push hlast
    obtain ⟨hlen, htake⟩ := hwatches hcur
    rw [heq]
    refine ⟨b.live, ?_, .inl rfl⟩
    rw [← htake]
    exact take_set_succ _ (by omega)

theorem commit_frame (b : StreamBuffer) (tick : ℕ) :
    (b.commit tick).m_offset = addU64 b.m_offset b.m_mapped_size ∧
      (b.commit tick).m_mapped_size = b.m_mapped_size ∧ (b.commit tick).size = b.size ∧
      (b.commit tick).m_wait_bound = b.m_wait_bound ∧
      (b.commit tick).m_wait_cursor = b.m_wait_cursor ∧
      (b.commit tick).m_invalidation_mark = b.m_invalidation_mark ∧
      (b.commit tick).m_previous_watches = b.m_previous_watches := by
  by_cases hlast : b.SameTick tick
  · rw [commit_extend hlast]
    exact ⟨rfl, rfl, rfl, rfl, rfl, rfl, rfl⟩
  · obtain ⟨watches, heq, _⟩ := commit_push hlast
    rw [heq]
    exact ⟨rfl, rfl, rfl, rfl, rfl, rfl, rfl⟩

theorem commit_cursor_lt (tick : ℕ) (hcur : b.m_current_watch_cursor < b.m_current_watches.length) :
    (b.commit tick).m_current_watch_cursor < (b.commit tick).m_current_watches.length := by
  by_cases hlast : b.SameTick tick
  · rw [commit_extend hlast, length_set]
    exact hcur
  · obtain ⟨watches, heq, hwatches⟩ := commit_push hlast
    rw [heq, length_set]
    exact (hwatches hcur).1

/-- **Commit keeps the invariant**, with the region it ends among the committed ones. -/
theorem Inv.commit {s : σ}
    (h : Inv S b s regions) (hfits : b.m_offset + b.m_mapped_size ≤ UINT64_MAX) :
    Inv S (b.commit (S.CurrentTick s)) s
      (⟨b.m_offset, b.m_mapped_size, S.CurrentTick s⟩ :: regions) := by
  obtain ⟨hoff, hsize, htotal, hbound, hcursor, hmark, hprev⟩ := commit_frame b (S.CurrentTick s)
  obtain ⟨ws, hlive, hold⟩ := commit_live (S.CurrentTick s) h.cursor_lt
  rw [addU64_of_le hfits] at hoff hlive
  have hpend : (b.commit (S.CurrentTick s)).pending = b.pending := by
    unfold pending
    rw [hcursor, hmark, hprev]
  -- the watches that stay are those of the current lap before the commit
  have hws : ∀ w ∈ ws, w ∈ b.live := by
    intro w hw
    obtain hsame | ⟨v, hsame, _⟩ := hold
    · rwa [hsame]
    · rw [hsame]
      exact mem_append_left _ hw
  refine
    { mapped_le := by rw [hsize, htotal]; exact h.mapped_le
      offset_le := by rw [hoff]; exact hfits
      cursor_lt := commit_cursor_lt _ h.cursor_lt
      wait_le := by rw [hmark, hcursor, hprev]; exact h.wait_le
      previous_pos := by rw [hprev]; exact h.previous_pos
      started := ?_
      bounds := ?_
      ticks := ?_
      watched := ?_ }
  · intro _ hnil
    rw [hlive] at hnil
    exact append_ne_nil_of_right_ne_nil ws (cons_ne_nil _ _) hnil
  · intro w hw
    rw [hlive, mem_append, mem_singleton] at hw
    rw [hoff]
    obtain hw | rfl := hw
    · exact (h.bounds w (hws w hw)).trans (le_add_right _ _)
    · exact le_refl _
  · intro c hc
    obtain rfl | hc := mem_cons.mp hc
    · exact le_refl _
    · exact h.ticks c hc
  · intro c hc hlt
    unfold Watched
    rw [hpend, hbound, hoff, hlive]
    obtain rfl | hc := mem_cons.mp hc
    · -- the new region starts behind the bounds of all earlier watches
      refine .inl ⟨.concat (zero_le _) ?_ le_rfl, le_refl _⟩
      intro v hv
      exact h.bounds v (hws v hv)
    · obtain ⟨hg, hend⟩ | ⟨hg, hticks⟩ := h.watched c hc hlt
      · refine .inl ⟨?_, hend.trans (le_add_right _ _)⟩
        obtain hsame | ⟨v, hsame, hv⟩ := hold
        · exact (hsame ▸ hg).append _
        · exact (hsame ▸ hg).extend hv
      · refine .inr ⟨hg, fun w hw => ?_⟩
        obtain hw | hw := mem_append.mp hw
        · exact hticks w (hws w hw)
        · rw [mem_singleton.mp hw]
          exact h.ticks c hc

/-! ## Map -/

/-- What a successful `Map` establishes: the memory it hands out and its freedom. -/
structure Granted (S : TickScheduler σ) (b : StreamBuffer) (regions : List Region)
    (offset mapped_size : ℕ) (r : Mapping σ) : Prop where
  offset_eq : r.buffer.m_offset = offset
  mapped_eq : r.buffer.m_mapped_size = mapped_size
  inside : offset + mapped_size ≤ b.size
  /-- No committed region that is still in use meets the memory. -/
  free : ∀ c ∈ regions, S.KnownGpuTick r.scheduler < c.tick →
    c.start + c.size ≤ offset ∨ offset + mapped_size ≤ c.start

/-- Behind the offset of the current lap: the regions of this lap are before it, those of
the lap before are waited for. -/
theorem mapAt_behind {s : σ}
    (h : Inv S b s regions) (mapped_size aligned_offset : ℕ) (allow_wait : Bool)
    (hfits : aligned_offset + mapped_size ≤ b.size) (hup : b.m_offset ≤ aligned_offset)
    (hzero : b.m_offset = 0 → aligned_offset = 0) :
    let r := b.mapAt S mapped_size aligned_offset false allow_wait s
    Inv S r.buffer r.scheduler regions ∧ S.Progress s r.scheduler ∧
      (∀ offset, r.offset = some offset →
        offset = aligned_offset ∧ Granted S b regions offset mapped_size r) ∧
      (r.offset = none → r.buffer = b) := by
  obtain ⟨hprog, hok⟩ := waitPendingOperations_spec S b.usage b.m_previous_watches
    b.m_invalidation_mark (aligned_offset + mapped_size) allow_wait b.m_wait_cursor
    b.m_wait_bound s h.wait_le
  simp only [mapAt, Bool.false_eq_true, if_false]
  generalize waitPendingOperations S b.usage b.m_previous_watches b.m_invalidation_mark
    (aligned_offset + mapped_size) allow_wait b.m_wait_cursor b.m_wait_bound s = w at hprog hok ⊢
  obtain ⟨ok, wait_cursor, wait_bound, s'⟩ := w
  cases ok with
  | false =>
    refine ⟨h.progress hprog, hprog, ?_, fun _ => rfl⟩
    intro offset ho
    cases ho
  | true =>
    obtain ⟨hcursor, hguard⟩ := hok rfl
    have hsize : b.size ≤ UINT64_MAX := b.size_le
    have hp := h.progress hprog
    refine ⟨?_, hprog, ?_, fun hn => absurd hn (some_ne_none _)⟩
    · refine
        { mapped_le := (le_add_left _ _).trans hfits
          offset_le := by
            show aligned_offset ≤ UINT64_MAX
            omega
          cursor_lt := h.cursor_lt
          wait_le := fun mark hm => ⟨hcursor mark hm, (h.wait_le mark hm).2⟩
          previous_pos := h.previous_pos
          started := fun hpos => h.started (pos_of_ne_zero fun h0 => ?_)
          bounds := fun w hw => (h.bounds w hw).trans hup
          ticks := hp.ticks
          watched := ?_ }
      · have hpos' : 0 < aligned_offset := hpos
        exact hpos'.ne' (hzero h0)
      · intro c hc hlt
        obtain ⟨hg, hend⟩ | ⟨hg, hticks⟩ := hp.watched c hc hlt
        · exact .inl ⟨hg, hend.trans hup⟩
        · exact .inr ⟨(hguard _ _ hlt hg).1, hticks⟩
    · intro offset ho
      cases ho
      refine ⟨rfl, rfl, rfl, hfits, ?_⟩
      intro c hc hlt
      obtain ⟨_, hend⟩ | ⟨hg, _⟩ := hp.watched c hc hlt
      · exact .inl (hend.trans hup)
      · exact .inr (hguard _ _ hlt hg).2

/-- At the start of the buffer: all regions that are still in use are guarded by the
watches of the lap that ends, those of the laps before by its first watch. -/
theorem mapAt_wrapped {s : σ}
    (h : Inv S b s regions) (mapped_size aligned_offset : ℕ) (allow_wait : Bool)
    (hfits : mapped_size ≤ b.size) (hpos : 0 < b.m_offset) :
    let r := b.mapAt S mapped_size aligned_offset true allow_wait s
    Inv S r.buffer r.scheduler regions ∧ S.Progress s r.scheduler ∧
      (∀ offset, r.offset = some offset →
        offset = 0 ∧ Granted S b regions offset mapped_size r) ∧
      (r.offset = none → r.buffer = b) := by
  have hmark : ∀ mark, some b.m_current_watch_cursor = some mark →
      0 ≤ mark ∧ mark ≤ b.m_current_watches.length := by
    intro mark hm
    cases hm
    exact ⟨zero_le _, h.cursor_lt.le⟩
  obtain ⟨hprog, hok⟩ := waitPendingOperations_spec S b.usage b.m_current_watches
    (some b.m_current_watch_cursor) (0 + mapped_size) allow_wait 0 0 s hmark
  simp only [mapAt, if_true]
  generalize waitPendingOperations S b.usage b.m_current_watches
    (some b.m_current_watch_cursor) (0 + mapped_size) allow_wait 0 0 s = w at hprog hok ⊢
  obtain ⟨ok, wait_cursor, wait_bound, s'⟩ := w
  cases ok with
  | false =>
    refine ⟨h.progress hprog, hprog, ?_, fun _ => rfl⟩
    intro offset ho
    cases ho
  | true =>
    obtain ⟨hcursor, hguard⟩ := hok rfl
    have hp := h.progress hprog
    have hall : ∀ c ∈ regions, S.KnownGpuTick s' < c.tick → Guarded c.tick c.start 0 b.live := by
      intro c hc hlt
      obtain ⟨hg, _⟩ | ⟨_, hticks⟩ := hp.watched c hc hlt
      · exact hg
      · exact .of_head (h.started hpos) (zero_le _) hticks
    refine ⟨?_, hprog, ?_, fun hn => absurd hn (some_ne_none _)⟩
    · refine
        { mapped_le := hfits
          offset_le := zero_le _
          cursor_lt := h.previous_pos
          wait_le := ?_
          previous_pos := (zero_le _).trans_lt h.cursor_lt
          started := fun h0 => absurd h0 (lt_irrefl 0)
          bounds := fun w hw => nomatch hw
          ticks := hp.ticks
          watched := ?_ }
      · intro mark hm
        cases hm
        exact ⟨hcursor _ rfl, h.cursor_lt.le⟩
      · intro c hc hlt
        exact .inr ⟨(hguard _ _ hlt (hall c hc hlt)).1, fun w hw => nomatch hw⟩
    · intro offset ho
      cases ho
      refine ⟨rfl, rfl, rfl, (zero_add _).le.trans hfits, ?_⟩
      intro c hc hlt
      exact .inr (hguard _ _ hlt (hall c hc hlt)).2

/-- **Map keeps the invariant**; a region it returns is aligned, inside the buffer and
free, and without a region the buffer is as before. -/
theorem map_spec {s : σ} (h : Inv S b s regions) (size alignment : ℕ) (allow_wait : Bool) :
    let r := b.map S size alignment allow_wait s
    Inv S r.buffer r.scheduler regions ∧ S.Progress s r.scheduler ∧
      (∀ offset, r.offset = some offset →
        (alignment ≠ 0 → alignment ∣ offset) ∧
          ∃ mapped_size, size ≤ mapped_size ∧ Granted S b regions offset mapped_size r) ∧
      (r.offset = none → r.buffer = b) := by
  unfold map
  by_cases hmapped : b.mapped = false
  · rw [if_pos hmapped]
    exact ⟨h, refl S s, nofun, fun _ => rfl⟩
  rw [if_neg hmapped]
  cases hnorm : normalizeReservation b.is_coherent b.atom size alignment with
  | none => exact ⟨h, refl S s, nofun, fun _ => rfl⟩
  | some reservation =>
    obtain ⟨mapped_size, alignment'⟩ := reservation
    obtain ⟨hle, hstrict⟩ := normalizeReservation_spec hnorm
    dsimp only
    by_cases htoo : b.size < mapped_size
    · rw [if_pos htoo]
      exact ⟨h, refl S s, nofun, fun _ => rfl⟩
    rw [if_neg htoo]
    cases hup : alignUp b.m_offset alignment' with
    | none => exact ⟨h, refl S s, nofun, fun _ => rfl⟩
    | some aligned_offset =>
      obtain ⟨hge, hdvd⟩ := alignUp_spec hup
      have hzero : b.m_offset = 0 → aligned_offset = 0 := by
        intro h0
        rw [h0, alignUp_zero, some.injEq] at hup
        exact hup.symm
      dsimp only
      by_cases hwrap : b.size - mapped_size < aligned_offset
      · rw [decide_eq_true hwrap]
        have hpos : 0 < b.m_offset := by
          by_contra h0
          omega
        obtain ⟨hinv, hprog, hgrant, hnone⟩ :=
          mapAt_wrapped h mapped_size aligned_offset allow_wait (by omega) hpos
        refine ⟨hinv, hprog, fun offset ho => ?_, hnone⟩
        obtain ⟨rfl, hg⟩ := hgrant offset ho
        exact ⟨fun _ => dvd_zero _, mapped_size, hle, hg⟩
      · rw [decide_eq_false hwrap]
        obtain ⟨hinv, hprog, hgrant, hnone⟩ :=
          mapAt_behind h mapped_size aligned_offset allow_wait (by omega) hge hzero
        refine ⟨hinv, hprog, fun offset ho => ?_, hnone⟩
        obtain ⟨rfl, hg⟩ := hgrant offset ho
        refine ⟨fun hne => ?_, mapped_size, hle, hg⟩
        obtain ⟨hne', hal⟩ := hstrict hne
        exact hal.trans (hdvd hne')

/-! ## Runs -/

/-- The states a buffer can be in: the buffer, the scheduler and the regions committed so
far. Calls may come in any order, and the scheduler may progress at any time. A commit
whose end does not fit 64 bits is left out; one that follows its own `Map` fits. -/
inductive Reachable (S : TickScheduler σ) (b₀ : StreamBuffer) (s₀ : σ) :
    StreamBuffer → σ → List Region → Prop
  | init : Reachable S b₀ s₀ b₀ s₀ []
  | progress {b s regions} (h : Reachable S b₀ s₀ b s regions) (s' : σ)
      (hp : S.Progress s s') : Reachable S b₀ s₀ b s' regions
  | map {b s regions} (h : Reachable S b₀ s₀ b s regions) (size alignment : ℕ)
      (allow_wait : Bool) :
      Reachable S b₀ s₀ (b.map S size alignment allow_wait s).buffer
        (b.map S size alignment allow_wait s).scheduler regions
  | commit {b s regions} (h : Reachable S b₀ s₀ b s regions)
      (hfits : b.m_offset + b.m_mapped_size ≤ UINT64_MAX) :
      Reachable S b₀ s₀ (b.commit (S.CurrentTick s)) s
        (⟨b.m_offset, b.m_mapped_size, S.CurrentTick s⟩ :: regions)

theorem inv_reachable {b0 : StreamBuffer} {s0 s : σ}
    (h0 : Inv S b0 s0 []) (h : Reachable S b0 s0 b s regions) : Inv S b s regions := by
  induction h with
  | init => exact h0
  | progress _ s' hp ih => exact ih.progress hp
  | map _ size alignment allow_wait ih => exact (map_spec ih size alignment allow_wait).1
  | commit _ hfits ih => exact ih.commit hfits

/-- **Safety of the ring.** In every reachable state a region that `Map` returns is
aligned, lies inside the buffer, and meets no region committed before whose tick is not
free; a `Map` that returns no region leaves the buffer as it was. -/
theorem streamBuffer_ring (S : TickScheduler σ) (size : ℕ) (size_le : size ≤ UINT64_MAX)
    (mapped is_coherent : Bool) (usage : MemoryUsage) (atom : ℕ) (s₀ : σ) {b : StreamBuffer}
    {s : σ} {regions : List Region}
    (h : Reachable S (new size size_le mapped is_coherent usage atom) s₀ b s regions)
    (n alignment : ℕ) (allow_wait : Bool) : let r := b.map S n alignment allow_wait s
    (∀ offset, r.offset = some offset →
      (alignment ≠ 0 → alignment ∣ offset) ∧
        ∃ mapped_size, n ≤ mapped_size ∧ Granted S b regions offset mapped_size r) ∧
    (r.offset = none → r.buffer = b) := by
  have hinv := inv_reachable (inv_new S size size_le mapped is_coherent usage atom s₀) h
  exact (map_spec hinv n alignment allow_wait).2.2

/-- A scheduler on the pair of the current tick and the free-tick counter, whose waits
return at once. -/
def promptScheduler : TickScheduler (ℕ × ℕ) where
  CurrentTick := Prod.fst
  KnownGpuTick := Prod.snd
  isFree t s := (decide (t ≤ s.2), s)
  wait t s := (max s.1 (t + 1), max s.2 t)
  waitPriorityOperations _ s := s
  current_isFree _ s := le_refl s.1
  known_isFree _ s := le_refl s.2
  current_wait t s := le_max_left s.1 (t + 1)
  known_wait t s := le_max_left s.2 t
  free_wait t s := le_max_right s.2 t
  current_priority _ s := le_refl s.1
  known_priority _ s := le_refl s.2

theorem reachable_two_regions :
    ∃ b s regions, Reachable promptScheduler (new 1024 (by decide) true true .upload 1) (1, 0)
        b s regions ∧
      regions = [⟨512, 512, 2⟩, ⟨0, 512, 1⟩] ∧ s = (2, 0) ∧
      (b.map promptScheduler 256 16 true s).offset = some 0 := by
  have hnew := @Reachable.init _ promptScheduler (new 1024 (by decide) true true .upload 1) (1, 0)
  have hfirst := hnew.map 512 16 true
  have hcommit := hfirst.commit (by decide +kernel)
  have hsecond := (hcommit.progress (2, 0) ⟨by decide +kernel, by decide +kernel⟩).map 512 16 true
  exact ⟨_, _, _, hsecond.commit (by decide +kernel), by decide +kernel, by decide +kernel,
    by decide +kernel⟩

/-- The third region is at the start of the buffer again: it meets no region in use. -/
theorem streamBuffer_ring_wrap :
    ∃ b mapped_size, 256 ≤ mapped_size ∧
      Granted promptScheduler b [⟨512, 512, 2⟩, ⟨0, 512, 1⟩] 0 mapped_size
        (b.map promptScheduler 256 16 true (2, 0)) := by
  obtain ⟨b, s, regions, hreach, hregions, hs, hoffset⟩ := reachable_two_regions
  have hring := streamBuffer_ring promptScheduler 1024 (by decide) true true .upload 1 (1, 0)
    hreach 256 16 true
  obtain ⟨mapped_size, hle, hgranted⟩ := (hring.1 0 hoffset).2
  rw [hregions, hs] at hgranted
  exact ⟨b, mapped_size, hle, hgranted⟩

/-- Two commits of one mapping of `2^63` bytes bring the offset back to 0: the next `Map`
hands out memory that is committed at tick 1, and tick 1 is not free. -/
theorem streamBuffer_commit_wraps :
    let m := (new 9223372036854775808 (by decide) true true .upload 1).map promptScheduler
      9223372036854775808 0 true (1, 0)
    let r := ((m.buffer.commit 1).commit 1).map promptScheduler 16 0 false m.scheduler
    m.offset = some 0 ∧ r.offset = some 0 ∧ r.scheduler = (1, 0) := by
  decide +kernel

end MagnusPS5.Graphics.StreamBuffer
