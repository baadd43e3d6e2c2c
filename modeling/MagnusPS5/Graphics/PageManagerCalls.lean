/-
The calls to the host that `UpdateRegionWatchers` makes.

`sweepCalls` lists them in order. Each covers pages of the region that all have, after the
update, the protection of the call, and each page whose protection the update changes is
covered (`updateRegionWatchers_ok`). `Gathered` is the invariant of the loop: the pages from
the first one of the run that is still to be protected up to the current one have the
protection of the run.
-/
import MagnusPS5.Lib.Checks
import MagnusPS5.Lib.Writes
import MagnusPS5.Graphics.PageProtection

namespace MagnusPS5.Graphics

open Lib
open Kernel (GuestAddressSpace)
open List Sweep Function PageState

/-! ## Calls -/

/-- A call to `Protect`. -/
structure ProtectCall where
  vaddr : ℕ
  size : ℕ
  protection : Protection
  deriving DecidableEq

/-- The address is in the range of the call. -/
def ProtectCall.covers (call : ProtectCall) (x : ℕ) : Bool :=
  decide (call.vaddr ≤ x ∧ x < call.vaddr + call.size)

/-- The calls one after the other. -/
def replay (calls : List ProtectCall) (guest : Option GuestAddressSpace) :
    Except Abort (Option GuestAddressSpace) :=
  calls.foldlM (fun guest call => protect guest call.vaddr call.size call.protection) guest

variable {guest guest' : Option GuestAddressSpace} {mask : ℕ → Bool}

theorem replay_append {calls calls' : List ProtectCall} (h : replay calls guest = .ok guest') :
    replay (calls ++ calls') guest = replay calls' guest' := by
  unfold replay at h ⊢
  rw [foldlM_append, h]
  rfl

/-- The call of `release_pending`, if it makes one. -/
def pendingCalls (base_addr : ℕ) (s : Sweep) : List ProtectCall :=
  if s.range_bytes ≠ 0 then
    [⟨base_addr + s.range_begin * TRACKER_PAGE_SIZE, s.range_bytes, s.perms⟩]
  else []

/-- The calls that come behind a step, if it returns. -/
def following {α : Type} (step : Except Abort α) (calls : α → List ProtectCall) :
    List ProtectCall :=
  match step with
  | .ok a => calls a
  | .error _ => []

/-- The calls of the loop for the pages that are left, and the one behind it. A page
releases the run in front of it when it changes `perms`. -/
def sweepCalls (hot_page_escape track is_read : Bool) (base_addr : ℕ) (mask : ℕ → Bool) :
    List ℕ → Sweep → List ProtectCall
  | [], s => pendingCalls base_addr s
  | page_index :: rest, s =>
    following (updatePage hot_page_escape track is_read base_addr mask page_index s) fun s' =>
      (if s'.perms ≠ s.perms then pendingCalls base_addr s else []) ++
        sweepCalls hot_page_escape track is_read base_addr mask rest s'

/-- The calls of `UpdateRegionWatchers`. -/
def updateRegionCalls (hot_page_escape track is_read : Bool) (base_addr first last : ℕ)
    (mask : ℕ → Bool) (pages : ℕ → PageState) (guest : Option GuestAddressSpace) :
    List ProtectCall :=
  sweepCalls hot_page_escape track is_read base_addr mask (List.range' first (last - first))
    { pages, guest, perms := (pages first).perms hot_page_escape }

/-! ## One page -/

/-- A page of the mask after an update. -/
def PageState.updated (track is_read : Bool) (page : PageState) : PageState :=
  ({ page with managed := page.managed || track } : PageState).withCount is_read
    (changed track (page.count is_read))

/-- The pages from the run's first one up to page `k` have the protection of the run. -/
structure Gathered (hot_page_escape : Bool) (first k : ℕ) (s : Sweep) : Prop where
  whole : s.range_bytes % 4096 = 0
  start : s.range_bytes ≠ 0 → first ≤ s.range_begin
  bound : s.range_bytes ≠ 0 → s.range_begin * 4096 + s.range_bytes ≤ k * 4096
  potential : s.range_bytes ≠ 0 → s.range_begin * 4096 + s.potential_range_bytes = k * 4096
  same : s.range_bytes ≠ 0 → ∀ i, s.range_begin ≤ i → i < k →
    (s.pages i).perms hot_page_escape = s.perms

/-- The page is in the run that is still to be protected. -/
abbrev Sweep.Pending (s : Sweep) (i : ℕ) : Prop := InRun s.range_begin s.range_bytes i

variable {base_addr first k last : ℕ} {hot_page_escape track is_read : Bool} {pages : ℕ → PageState}
  {s s' : Sweep}

/-- **`release_pending`** makes the call of the run. -/
theorem releasePending_ok (h : releasePending base_addr s = .ok s') :
    replay (pendingCalls base_addr s) s.guest = .ok s'.guest ∧ s'.range_bytes = 0 ∧
      s'.pages = s.pages ∧ s'.perms = s.perms := by
  unfold releasePending at h
  unfold pendingCalls
  by_cases hne : s.range_bytes ≠ 0
  · rw [if_pos hne] at h
    rw [if_pos hne]
    obtain ⟨guest, hguest, hs⟩ := bind_eq_ok.mp h
    cases hs
    refine ⟨?_, rfl, rfl, rfl⟩
    show (protect _ _ _ _ >>= pure) = _
    rw [hguest]
    rfl
  · rw [if_neg hne] at h
    rw [if_neg hne]
    cases h
    exact ⟨rfl, not_not.mp hne, rfl, rfl⟩

theorem addDelta_updated {mask : Bool} {page page' : PageState} {address new_count : ℕ}
    (h : (if track then { page with managed := page.managed || mask } else page :
        PageState).addDelta (if mask then if track then 1 else -1 else 0) is_read address =
      .ok (new_count, page')) :
    page' = (if mask then page.updated track is_read else page) ∧
      (page'.perms hot_page_escape ≠ page.perms hot_page_escape →
        (track = true ∧ new_count = 1) ∨ (track = false ∧ new_count = 0)) := by
  cases mask with
  | false =>
    have hpage : (if track then { page with managed := page.managed || false } else page :
        PageState) = page := by
      rw [Bool.or_false, ite_self]
    rw [hpage] at h
    cases (addDelta_none _ _ _).symm.trans h
    exact ⟨rfl, fun hne => absurd rfl hne⟩
  | true =>
    rw [if_pos rfl] at h
    obtain ⟨hcount, hpage⟩ := addDelta_ok h
    have hupdated : page' = page.updated track is_read := by
      rw [hpage, hcount]
      cases track <;> cases is_read <;> simp [PageState.updated, PageState.withCount,
        PageState.count]
    refine ⟨hupdated, fun hne => ?_⟩
    -- away from an edge the protection stays
    by_contra hedge
    rw [hcount] at hedge
    apply hne
    rw [hpage, hcount, perms_changed _ hot_page_escape track is_read hedge]
    cases track <;> rfl

theorem Gathered.succ (hs : Gathered hot_page_escape first k s) (hpages : s'.pages = s.pages)
    (hperms : s'.perms = s.perms) (hk : (s.pages k).perms hot_page_escape = s.perms)
    (hbegin : s'.range_begin = s.range_begin) (hbytes : s'.range_bytes = s.range_bytes)
    (hpotential : s.range_bytes ≠ 0 →
      s'.potential_range_bytes = s.potential_range_bytes + TRACKER_PAGE_SIZE) :
    Gathered hot_page_escape first (k + 1) s' := by
  refine ⟨?_, fun hne => ?_, fun hne => ?_, fun hne => ?_, fun hne i h1 h2 => ?_⟩ <;>
    rw [hbytes] at *
  · exact hs.whole
  · rw [hbegin]
    exact hs.start hne
  · rw [hbegin]
    exact (hs.bound hne).trans (Nat.mul_le_mul_right 4096 (Nat.le_succ k))
  · have hnow := hs.potential hne
    rw [hbegin, hpotential hne]
    show s.range_begin * 4096 + (s.potential_range_bytes + 4096) = (k + 1) * 4096
    omega
  · rw [hpages, hperms]
    rw [hbegin] at h1
    by_cases hi : i = k
    · rw [hi, hk]
    · exact hs.same hne i h1 (by omega)

theorem gathered_of_zero (hot_page_escape : Bool) (first k : ℕ)
    (h : s.range_bytes = 0) : Gathered hot_page_escape first k s :=
  ⟨by rw [h], fun hne => absurd h hne, fun hne => absurd h hne, fun hne => absurd h hne,
    fun hne => absurd h hne⟩

theorem gather_ok {new_perms : Protection} (h : gather base_addr new_perms s = .ok s')
    (hs : Gathered hot_page_escape first k s) (hk : (s.pages k).perms hot_page_escape = new_perms) :
    s'.pages = s.pages ∧ s'.perms = new_perms ∧
      replay (if new_perms ≠ s.perms then pendingCalls base_addr s else []) s.guest =
        .ok s'.guest ∧
      Gathered hot_page_escape first (k + 1) s' ∧
      (∀ i, s.Pending i → new_perms ≠ s.perms ∨ s'.Pending i) := by
  unfold gather at h
  by_cases hperms : new_perms ≠ s.perms
  · rw [if_pos hperms] at h
    rw [if_pos hperms]
    obtain ⟨s1, hrelease, hs1⟩ := bind_eq_ok.mp h
    cases hs1
    obtain ⟨hreplay, hbytes, hpages, -⟩ := releasePending_ok hrelease
    exact ⟨hpages, rfl, hreplay, gathered_of_zero _ _ _ hbytes, fun _ _ => .inl hperms⟩
  · rw [if_neg hperms] at h
    rw [if_neg hperms]
    have heq : new_perms = s.perms := not_not.mp hperms
    rw [heq] at hk
    by_cases hbytes : s.range_bytes ≠ 0
    · rw [if_pos hbytes] at h
      cases h
      exact ⟨rfl, heq.symm, rfl, hs.succ rfl rfl hk rfl rfl fun _ => rfl, fun i hi => .inr hi⟩
    · rw [if_neg hbytes] at h
      cases h
      exact ⟨rfl, heq.symm, rfl, gathered_of_zero _ _ _ (not_not.mp hbytes), fun i hi => .inr hi⟩

/-- The run up to a page and with it, or this page alone where there is no run. -/
def Sweep.extend (s : Sweep) (page_index : ℕ) : Sweep :=
  let s :=
    if s.range_bytes = 0 then
      { s with range_begin := page_index, potential_range_bytes := TRACKER_PAGE_SIZE }
    else s
  { s with range_bytes := s.potential_range_bytes }

theorem Sweep.extend_pages (s : Sweep) (k : ℕ) : (s.extend k).pages = s.pages := by
  unfold extend
  split <;> rfl

theorem Sweep.extend_perms (s : Sweep) (k : ℕ) : (s.extend k).perms = s.perms := by
  unfold extend
  split <;> rfl

theorem Sweep.extend_guest (s : Sweep) (k : ℕ) : (s.extend k).guest = s.guest := by
  unfold extend
  split <;> rfl

theorem Gathered.extend (hs : Gathered hot_page_escape first (k + 1) s) (hfirst : first ≤ k)
    (hk : (s.pages k).perms hot_page_escape = s.perms) :
    Gathered hot_page_escape first (k + 1) (s.extend k) ∧ (s.extend k).Pending k ∧
      ∀ i, s.Pending i → (s.extend k).Pending i := by
  unfold Sweep.extend
  by_cases hzero : s.range_bytes = 0
  · simp only [if_pos hzero]
    refine ⟨⟨Nat.mod_self 4096, fun _ => hfirst, fun _ => ?_, fun _ => ?_, fun _ i h1 h2 => ?_⟩,
      ?_, fun i hi => absurd hzero hi.1⟩
    · show k * 4096 + 4096 ≤ (k + 1) * 4096
      omega
    · show k * 4096 + 4096 = (k + 1) * 4096
      omega
    · have h1' : k ≤ i := h1
      obtain rfl : i = k := by omega
      exact hk
    · refine ⟨Nat.succ_ne_zero 4095, le_refl _, ?_⟩
      show k * 4096 < k * 4096 + 4096
      omega
  · simp only [if_neg hzero]
    have hpotential := hs.potential hzero
    have hbound := hs.bound hzero
    have hle : s.range_begin ≤ k := by omega
    refine ⟨⟨?_, fun _ => hs.start hzero, fun _ => hpotential.le, fun _ => hpotential,
      fun _ => hs.same hzero⟩, ⟨?_, ?_, ?_⟩, fun i ⟨_, h1, h2⟩ => ⟨?_, h1, ?_⟩⟩
    · show s.potential_range_bytes % 4096 = 0
      omega
    · show ¬ s.potential_range_bytes = 0
      omega
    · exact Nat.mul_le_mul_right 4096 hle
    · show k * 4096 < s.range_begin * 4096 + s.potential_range_bytes
      omega
    · show ¬ s.potential_range_bytes = 0
      omega
    · show i * 4096 < s.range_begin * 4096 + s.potential_range_bytes
      omega

/-- **One page** of the loop. A pending page is released or stays pending, and a page whose
protection changes is pending. -/
theorem updatePage_ok (hfirst : first ≤ k)
    (h : updatePage hot_page_escape track is_read base_addr mask k s = .ok s')
    (hs : Gathered hot_page_escape first k s) :
    s'.pages = update s.pages k
        (if mask k then (s.pages k).updated track is_read else s.pages k) ∧
      replay (if s'.perms ≠ s.perms then pendingCalls base_addr s else []) s.guest =
        .ok s'.guest ∧
      Gathered hot_page_escape first (k + 1) s' ∧
      (∀ i, s.Pending i → s'.perms ≠ s.perms ∨ s'.Pending i) ∧
      ((s'.pages k).perms hot_page_escape ≠ (s.pages k).perms hot_page_escape →
        s'.Pending k) := by
  unfold updatePage at h
  dsimp only at h
  obtain ⟨⟨new_count, page'⟩, hdelta, hrest⟩ := bind_eq_ok.mp h
  obtain ⟨hpage, hedge⟩ := @addDelta_updated hot_page_escape _ _ _ _ _ _ _ hdelta
  obtain ⟨s1, hgather, hlast⟩ := bind_eq_ok.mp hrest
  have hupdated : Gathered hot_page_escape first k { s with pages := update s.pages k page' } := by
    refine ⟨hs.whole, hs.start, hs.bound, hs.potential, fun hne i h1 h2 => ?_⟩
    show (update s.pages k page' i).perms hot_page_escape = s.perms
    rw [update_of_ne (by omega)]
    exact hs.same hne i h1 h2
  have hself : (update s.pages k page' k).perms hot_page_escape = page'.perms hot_page_escape := by
    rw [update_self]
  obtain ⟨hpages, hperms, hreplay, hgathered, hpending⟩ := gather_ok hgather hupdated hself
  have hnow : (s1.pages k).perms hot_page_escape = s1.perms := by
    rw [hpages, hperms]
    exact hself
  -- the page joins the run if its protection is a new one
  have hcases : (s' = s1 ∧ page'.perms hot_page_escape = (s.pages k).perms hot_page_escape) ∨
      s' = s1.extend k := by
    have hold : (if track then { s.pages k with managed := (s.pages k).managed || mask k } else
        s.pages k : PageState).perms hot_page_escape = (s.pages k).perms hot_page_escape := by
      cases track <;> rfl
    rw [hold] at hlast
    by_cases hmask : mask k = false
    · rw [if_pos hmask] at hlast
      rw [hmask] at hpage
      exact .inl ⟨(Except.ok.inj hlast).symm, by rw [hpage, if_neg (by simp)]⟩
    · rw [if_neg hmask] at hlast
      split at hlast
      · exact .inr (Except.ok.inj hlast).symm
      next hno =>
        refine .inl ⟨(Except.ok.inj hlast).symm, ?_⟩
        by_contra hne
        exact hno ⟨hedge hne, fun heq => hne heq.symm⟩
  rw [hpage] at hpages
  rcases hcases with ⟨rfl, hsame⟩ | rfl
  · refine ⟨hpages, ?_, hgathered, ?_, fun hne => absurd ?_ hne⟩
    · rw [hperms]
      exact hreplay
    · rw [hperms]
      exact hpending
    · rw [hnow, hperms, hsame]
  · obtain ⟨hextended, hk, hkept⟩ := hgathered.extend hfirst hnow
    rw [extend_pages, extend_perms, extend_guest, hperms]
    exact ⟨hpages, hreplay, hextended, fun i hi => (hpending i hi).imp_right (hkept i), fun _ => hk⟩

/-! ## The loop -/

/-- The call is for whole pages of a region, which all have its protection. -/
def ProtectCall.Exact (call : ProtectCall) (hot_page_escape : Bool) (base_addr first last : ℕ)
    (pages : ℕ → PageState) : Prop :=
  ∃ begin_ end_, first ≤ begin_ ∧ end_ ≤ last ∧ call.vaddr = base_addr + begin_ * 4096 ∧
    call.vaddr + call.size = base_addr + end_ * 4096 ∧
    ∀ i, begin_ ≤ i → i < end_ → (pages i).perms hot_page_escape = call.protection

theorem Gathered.exact (hs : Gathered hot_page_escape first k s) (hlast : k ≤ last)
    (hpages : ∀ i, i < k → pages i = s.pages i) {call : ProtectCall}
    (h : call ∈ pendingCalls base_addr s) :
    call.Exact hot_page_escape base_addr first last pages := by
  unfold pendingCalls at h
  by_cases hne : s.range_bytes ≠ 0
  · rw [if_pos hne] at h
    obtain rfl := mem_singleton.mp h
    have hbound := hs.bound hne
    have hwhole := hs.whole
    refine ⟨s.range_begin, s.range_begin + s.range_bytes / 4096, hs.start hne, by omega, rfl, ?_,
      fun i h1 h2 => ?_⟩
    · show base_addr + s.range_begin * 4096 + s.range_bytes =
        base_addr + (s.range_begin + s.range_bytes / 4096) * 4096
      omega
    · rw [hpages i (by omega)]
      exact hs.same hne i h1 (by omega)
  · rw [if_neg hne] at h
    nomatch h

theorem Sweep.Pending.covered {i : ℕ} (h : s.Pending i) (base_addr : ℕ) :
    ∃ call ∈ pendingCalls base_addr s, call.covers (base_addr + i * 4096) = true := by
  obtain ⟨hne, h1, h2⟩ := h
  refine ⟨⟨base_addr + s.range_begin * 4096, s.range_bytes, s.perms⟩, ?_, ?_⟩
  · unfold pendingCalls
    rw [if_pos hne]
    exact mem_singleton.mpr rfl
  · refine decide_eq_true ⟨?_, ?_⟩
    · show base_addr + s.range_begin * 4096 ≤ base_addr + i * 4096
      omega
    · show base_addr + i * 4096 < base_addr + s.range_begin * 4096 + s.range_bytes
      omega

/-- What the rest of the loop does from page `k` on, with the release behind it. -/
structure Swept (hot_page_escape track is_read : Bool) (base_addr first k last : ℕ)
    (mask : ℕ → Bool) (s s' : Sweep) (calls : List ProtectCall) : Prop where
  pages : ∀ i, s'.pages i = if k ≤ i ∧ i < last ∧ mask i = true then
    (s.pages i).updated track is_read else s.pages i
  host : replay calls s.guest = .ok s'.guest
  exact : ∀ call ∈ calls, call.Exact hot_page_escape base_addr first last s'.pages
  covered : ∀ i, s.Pending i ∨ (k ≤ i ∧ i < last ∧
      (s'.pages i).perms hot_page_escape ≠ (s.pages i).perms hot_page_escape) →
    ∃ call ∈ calls, call.covers (base_addr + i * 4096) = true

/-- **The loop.** -/
theorem sweep_ok (n : ℕ) {s1 : Sweep} (hfirst : first ≤ k) (hs : Gathered hot_page_escape first k s)
    (hloop : (range' k n).foldlM (fun s page_index =>
      updatePage hot_page_escape track is_read base_addr mask page_index s) s = .ok s1)
    (hrelease : releasePending base_addr s1 = .ok s') :
    Swept hot_page_escape track is_read base_addr first k (k + n) mask s s'
      (sweepCalls hot_page_escape track is_read base_addr mask (range' k n) s) := by
  induction n generalizing k s with
  | zero =>
    obtain rfl : s = s1 := Except.ok.inj hloop
    obtain ⟨hreplay, -, hpages, -⟩ := releasePending_ok hrelease
    refine ⟨fun i => ?_, hreplay, fun call hcall => ?_, fun i hi => ?_⟩
    · rw [hpages, if_neg (by omega)]
    · exact hs.exact (le_refl k) (fun i _ => by rw [hpages]) hcall
    · rcases hi with hi | ⟨h1, h2, -⟩
      · exact hi.covered base_addr
      · exact absurd h2 (by omega)
  | succ n ih =>
    rw [range'_succ, foldlM_cons] at hloop
    obtain ⟨s2, hpage, hloop⟩ := bind_eq_ok.mp hloop
    obtain ⟨hpages, hreplay, hgathered, hpending, hnew⟩ := updatePage_ok hfirst hpage hs
    have hrest := ih (Nat.le_succ_of_le hfirst) hgathered hloop
    have hend : k + 1 + n = k + (n + 1) := by omega
    rw [hend] at hrest
    -- the pages behind are as they were, those in front as they are left
    have hbelow : ∀ i, i < k + 1 → s'.pages i = s2.pages i := by
      intro i hi
      rw [hrest.pages, if_neg (by omega)]
    have hother : ∀ i, i ≠ k → s2.pages i = s.pages i := by
      intro i hi
      rw [hpages]
      exact update_of_ne hi _ _
    rw [range'_succ]
    unfold sweepCalls
    rw [hpage]
    unfold following
    refine ⟨fun i => ?_, ?_, fun call hcall => ?_, fun i hi => ?_⟩
    · by_cases hi : i = k
      · rw [hi, hbelow k (by omega), hpages, update_self]
        by_cases hmask : mask k = true
        · rw [if_pos hmask, if_pos ⟨le_refl k, by omega, hmask⟩]
        · rw [if_neg hmask, if_neg (fun hc => hmask hc.2.2)]
      · rw [hrest.pages, hother i hi]
        congr 1
        exact propext ⟨fun hc => ⟨by omega, hc.2⟩, fun hc => ⟨by omega, hc.2⟩⟩
    · rw [replay_append hreplay]
      exact hrest.host
    · rcases mem_append.mp hcall with hcall | hcall
      · split at hcall
        · refine hs.exact (by omega) (fun i hi => ?_) hcall
          rw [hbelow i (by omega), hother i (by omega)]
        · nomatch hcall
      · exact hrest.exact call hcall
    · -- a pending page is released here or later
      have hlater : s2.Pending i → ∃ call ∈ (if s2.perms ≠ s.perms then
          pendingCalls base_addr s else []) ++ sweepCalls hot_page_escape track is_read base_addr
          mask (range' (k + 1) n) s2, call.covers (base_addr + i * 4096) = true := by
        intro hpend
        obtain ⟨call, hcall, hcovers⟩ := hrest.covered i (.inl hpend)
        exact ⟨call, mem_append_right _ hcall, hcovers⟩
      rcases hi with hi | ⟨h1, h2, hne⟩
      · rcases hpending i hi with hreleased | hpend
        · obtain ⟨call, hcall, hcovers⟩ := hi.covered base_addr
          refine ⟨call, mem_append_left _ ?_, hcovers⟩
          rw [if_pos hreleased]
          exact hcall
        · exact hlater hpend
      · by_cases hik : i = k
        · rw [hik] at hne hlater ⊢
          rw [hbelow k (by omega)] at hne
          exact hlater (hnew hne)
        · obtain ⟨call, hcall, hcovers⟩ := hrest.covered i (.inr ⟨by omega, h2, by
            rw [hother i hik]
            exact hne⟩)
          exact ⟨call, mem_append_right _ hcall, hcovers⟩

/-- **`UpdateRegionWatchers`**: the pages after it, and the calls it has made. -/
theorem updateRegionWatchers_ok {pages' : ℕ → PageState} (hle : first ≤ last)
    (h : updateRegionWatchers hot_page_escape track is_read base_addr first last mask pages guest =
      .ok (pages', guest')) :
    (∀ i, pages' i = if first ≤ i ∧ i < last ∧ mask i = true then
        (pages i).updated track is_read else pages i) ∧
      replay (updateRegionCalls hot_page_escape track is_read base_addr first last mask pages guest)
        guest = .ok guest' ∧
      (∀ call ∈ updateRegionCalls hot_page_escape track is_read base_addr first last mask pages
        guest, call.Exact hot_page_escape base_addr first last pages') ∧
      (∀ i, (pages' i).perms hot_page_escape ≠ (pages i).perms hot_page_escape →
        ∃ call ∈ updateRegionCalls hot_page_escape track is_read base_addr first last mask pages
          guest, call.covers (base_addr + i * 4096) = true) := by
  obtain ⟨s1, hloop, hrest⟩ := bind_eq_ok.mp h
  obtain ⟨s', hrelease, hresult⟩ := bind_eq_ok.mp hrest
  cases hresult
  have hswept := sweep_ok (last - first) (le_refl first)
    (gathered_of_zero hot_page_escape first first rfl) hloop hrelease
  have hend : first + (last - first) = last := by omega
  rw [hend] at hswept
  refine ⟨hswept.pages, hswept.host, hswept.exact, fun i hne => hswept.covered i (.inr ?_)⟩
  -- only a page of the interval has another protection
  by_contra hout
  apply hne
  rw [hswept.pages, if_neg fun hc => hout ⟨hc.1, hc.2.1, hne⟩]

end MagnusPS5.Graphics
