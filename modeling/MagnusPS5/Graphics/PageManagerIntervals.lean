/-
When `UpdatePageWatchers` over an interval of bytes finds a watcher missing.

Adding watchers never does. Taking them away does not if every page that the interval
touches has one. Together with `updatePageWatchers_updated`, which says what the counts
are afterwards, this is all a client needs that keeps books of its own watchers.
-/
import MagnusPS5.Graphics.PageManagerRun

namespace MagnusPS5.Graphics.PageManager

open Lib
open Common (BitArray)

/-- The errors that say that a write watcher is missing. -/
def Unbalanced (e : Abort) : Prop :=
  (∃ address, e = .writeWatcherUnderflow address) ∨ ∃ address, e = .untrackingUnknownPage address

/-- The errors that do not. -/
def Balanced (e : Abort) : Prop := ¬ Unbalanced e

theorem HostRefuses.balanced {e : Abort} (h : HostRefuses e) : Balanced e := by
  obtain ⟨vaddr, protection, rfl⟩ := h
  rintro (⟨address, h⟩ | ⟨address, h⟩) <;> cases h

theorem pageEnd_yields (vaddr size : ℕ) :
    Yields Balanced (pageEnd vaddr size) fun end_ =>
      vaddr + size ≤ TRACKER_ADDRESS_SIZE ∧ 0 < size ∧
        end_ = pageStart (vaddr + size - 1) + TRACKER_PAGE_SIZE := by
  unfold pageEnd validateRange
  by_cases h : vaddr = 0 ∨ size = 0 ∨ vaddr ≥ TRACKER_ADDRESS_SIZE ∨
      size > TRACKER_ADDRESS_SIZE - vaddr
  · rw [if_pos h]
    refine yields_error ?_
    rintro (⟨address, h⟩ | ⟨address, h⟩) <;> cases h
  · rw [if_neg h]
    exact yields_pure ⟨by omega, by omega, rfl⟩

/-! ## Adding -/

/-- **One page.** The only error is that it has too many watchers. -/
theorem updatePage_grows (hot_page_escape : Bool) (base_addr : ℕ) (mask : ℕ → Bool) (k : ℕ)
    (s : Sweep) :
    Yields Balanced (updatePage hot_page_escape true false base_addr mask k s) fun _ => True := by
  have hdelta : ∀ (page : PageState) (update : Bool) (address : ℕ),
      Yields Balanced (page.addDelta (if update then 1 else 0) false address) fun _ => True := by
    intro page update address
    unfold PageState.addDelta
    rw [if_neg (by simp)]
    cases update with
    | false => exact yields_ok trivial
    | true =>
      rw [if_pos rfl, if_pos rfl]
      refine yields_ite (fun _ => yields_error ?_) fun _ => yields_ok trivial
      rintro (⟨_, h⟩ | ⟨_, h⟩) <;> cases h
  refine (hdelta _ _ _).bind fun counted _ => ?_
  refine ((gather_yields _ _ _).mono_error fun _ => HostRefuses.balanced).bind fun s' _ => ?_
  exact yields_ite (fun _ => trivial) fun _ => yields_ite (fun _ => trivial) fun _ => trivial

theorem updateRegion_grows (m : PageManager) (base_addr first last : ℕ) (mask : ℕ → Bool)
    (pages : ℕ → PageState) :
    Yields Balanced (m.updateRegion true false base_addr first last mask pages) fun _ => True := by
  refine .bind (P := fun _ => True) ?_ fun _ _ => trivial
  refine .bind (P := fun _ => True) ?_ fun s _ => ?_
  · have hstart : (fun (_ : List ℕ) (_ : Sweep) => True) (.range' first (last - first))
        { pages, guest := m.guest, perms := (pages first).perms m.hot_page_escape } := trivial
    exact yields_foldlM hstart fun k _ s _ => updatePage_grows _ _ _ _ _
  · exact ((releasePending_yields _ _).mono_error fun _ => HostRefuses.balanced).bind
      fun _ _ => trivial

theorem updateChunks_grows (end_ : ℕ) (fuel chunk_begin : ℕ) (m : PageManager) :
    Yields Balanced (updateChunks true false end_ fuel chunk_begin m) fun _ => True := by
  induction fuel generalizing chunk_begin m with
  | zero => trivial
  | succ fuel ih =>
    exact yields_ite (fun _ => (updateRegion_grows _ _ _ _ _ _).bind fun m' _ => ih _ m')
      fun _ => trivial

/-- **Adding watchers** finds none missing. -/
theorem updatePageWatchers_grows (m : PageManager) (vaddr size : ℕ) :
    Yields Balanced (m.updatePageWatchers true false vaddr size) fun _ => True := by
  exact (pageEnd_yields vaddr size).bind fun end_ _ => updateChunks_grows _ _ _ m

/-! ## Taking away -/

theorem count_page (m : PageManager) (x : ℕ) :
    m.count false (x / 4194304) (x % 4194304 / 4096) = (m.page x).write_watchers := by
  unfold count page getOrCreateRegion
  cases m.regions (x / 4194304) with
  | none => rfl
  | some pages => rfl

variable {i end_ chunk_begin size : ℕ} {hot_page_escape track result : Bool} {mask : ℕ → Bool}

theorem count_index (m : PageManager) (region : ℕ) (hi : i < 1024) :
    m.count false region i = (m.page (region * 4194304 + i * 4096)).write_watchers := by
  rw [← count_page]
  have hregion : (region * 4194304 + i * 4096) / 4194304 = region := by omega
  have hindex : (region * 4194304 + i * 4096) % 4194304 / 4096 = i := by omega
  rw [hregion, hindex]

variable {m m' : PageManager} {vaddr base_addr x : ℕ}

theorem updateChunks_shrinks (hend : end_ % 4096 = 0) (hlast : end_ ≤ 1099511627776)
    (fuel : ℕ) (halign : chunk_begin % 4096 = 0)
    (h : ∀ x, chunk_begin ≤ x → x < end_ → 0 < (m.page x).write_watchers) :
    Yields Balanced (updateChunks false false end_ fuel chunk_begin m) fun _ => True := by
  induction fuel generalizing chunk_begin m with
  | zero => trivial
  | succ fuel ih =>
    refine yields_ite (fun hgo => ?_) fun _ => trivial
    generalize hce : min end_
      ((chunk_begin / TRACKER_REGION_SIZE + 1) * TRACKER_REGION_SIZE) = chunk_end
    generalize hbase : chunk_begin / TRACKER_REGION_SIZE * TRACKER_REGION_SIZE = region_base
    obtain ⟨hmore, hle, halign', hfirst, hchunk, hindex⟩ :=
      chunk_bounds halign hend hgo hce.symm hbase.symm
    have hbase' : chunk_begin / 4194304 * 4194304 = region_base := hbase
    -- the pages of the chunk have watchers, so its region is there
    have hcan : ∀ i, (chunk_begin - region_base) / 4096 ≤ i →
        i < (chunk_end - region_base) / 4096 →
        CanChange false false (m.count false (chunk_begin / 4194304) i) := by
      intro i h1 h2
      have hpage := m.count_index (chunk_begin / 4194304) (i := i) (by omega)
      rw [hpage, hbase']
      exact h _ (by omega) (by omega)
    have haddr : chunk_begin < TRACKER_ADDRESS_SIZE := show chunk_begin < 1099511627776 by omega
    obtain ⟨pages, hpages, hcounts⟩ := m.regionFor_eq_some false false rfl haddr
      (hcan _ le_rfl (by omega))
    rw [hpages]
    have hregion : region_base / TRACKER_REGION_SIZE = chunk_begin / 4194304 := by
      rw [← hbase']
      exact Nat.mul_div_cancel _ (by decide)
    refine ((m.updateRegion_yields false false hregion _ _ (fun _ => true) hcounts
      fun i h1 h2 _ => hcan i h1 h2).mono_error fun _ => HostRefuses.balanced).bind
        fun m' hm' => ih halign' fun x h1 h2 => ?_
    -- the pages behind the chunk have kept theirs
    have hsame : m'.count false (x / 4194304) (x % 4194304 / 4096) =
        m.count false (x / 4194304) (x % 4194304 / 4096) := by
      refine (hm'.2 _ _ _).2 fun hon => ?_
      omega
    rw [← count_page, hsame, count_page]
    exact h x (by omega) h2

/-- **Taking watchers away** finds none missing if every page of the interval has one. -/
theorem updatePageWatchers_shrinks (m : PageManager)
    (h : ∀ x, OnRange vaddr size x → 0 < (m.page x).write_watchers) :
    Yields Balanced (m.updatePageWatchers false false vaddr size) fun _ => True := by
  refine (pageEnd_yields vaddr size).bind fun end_ hend => ?_
  obtain ⟨hsize, hpos, rfl⟩ := hend
  have hlast := pageStart_aligned (vaddr + size - 1)
  refine updateChunks_shrinks ?_ ?_ _ (pageStart_aligned vaddr) fun x h1 h2 => h x ⟨h1, h2⟩
  · show (pageStart (vaddr + size - 1) + 4096) % 4096 = 0
    omega
  · have hle : pageStart (vaddr + size - 1) ≤ vaddr + size - 1 := Nat.sub_le _ _
    show pageStart (vaddr + size - 1) + 4096 ≤ 1099511627776
    have hsize' : vaddr + size ≤ 1099511627776 := hsize
    omega

/-! ## What was there to take away -/

theorem updatePage_had {k : ℕ}
    {s s' : Sweep} (h : updatePage hot_page_escape false false base_addr mask k s = .ok s')
    (hk : mask k = true) : 0 < (s.pages k).write_watchers := by
  obtain ⟨counted, hdelta, -⟩ := bind_eq_ok.mp h
  rw [hk] at hdelta
  by_contra hzero
  have hnone : (s.pages k).write_watchers = 0 := by omega
  unfold PageState.addDelta at hdelta
  simp [hnone] at hdelta

theorem sweep_had {l : List ℕ} (hl : l.Nodup) {s s' : Sweep} (h : l.foldlM (fun s page_index =>
      updatePage hot_page_escape false false base_addr mask page_index s) s = .ok s') :
    ∀ k ∈ l, mask k = true → 0 < (s.pages k).write_watchers := by
  induction l generalizing s with
  | nil =>
    intro k hk
    exact nomatch hk
  | cons a l ih =>
    obtain ⟨hnew, hrest⟩ := List.nodup_cons.mp hl
    rw [List.foldlM_cons] at h
    obtain ⟨s1, hfirst, hloop⟩ := bind_eq_ok.mp h
    intro k hk hmask
    rcases List.mem_cons.mp hk with rfl | hk
    · exact updatePage_had hfirst hmask
    · have hlater := ih hrest hloop k hk hmask
      have hcounts := (updatePage_yields hot_page_escape false false base_addr mask a s
        fun ha => updatePage_had hfirst ha).of_ok hfirst
      have hsame : (s1.pages k).count false = (s.pages k).count false :=
        (hcounts k false).2 fun hc => hnew (hc.1.1 ▸ hk)
      show 0 < (s.pages k).count false
      rw [← hsame]
      exact hlater

theorem updateRegion_had {first last : ℕ} {pages : ℕ → PageState}
    (h : m.updateRegion false false base_addr first last mask pages = .ok m')
    (h1 : first ≤ i) (h2 : i < last) (hi : mask i = true) : 0 < (pages i).write_watchers := by
  obtain ⟨_, hregion, -⟩ := bind_eq_ok.mp h
  obtain ⟨s, hloop, -⟩ := bind_eq_ok.mp hregion
  refine sweep_had (List.nodup_range' _) hloop i ?_ hi
  rw [List.mem_range'_1]
  omega

theorem updateChunks_had (hend : end_ % 4096 = 0) (fuel : ℕ)
    (halign : chunk_begin % 4096 = 0) (hfuel : end_ ≤ chunk_begin + fuel * 4096)
    (h : updateChunks false false end_ fuel chunk_begin m = .ok m') :
    ∀ x, chunk_begin ≤ x → x < end_ → 0 < (m.page x).write_watchers := by
  induction fuel generalizing chunk_begin m with
  | zero =>
    intro x h1 h2
    omega
  | succ fuel ih =>
    intro x h1 h2
    have hgo : chunk_begin < end_ := by omega
    unfold updateChunks at h
    rw [if_pos hgo] at h
    cases hregion : m.regionFor false chunk_begin with
    | none =>
      rw [hregion] at h
      cases h
    | some pages =>
      rw [hregion] at h
      obtain ⟨m1, hupdate, hrest⟩ := bind_eq_ok.mp h
      generalize hchunk : min end_
        ((chunk_begin / TRACKER_REGION_SIZE + 1) * TRACKER_REGION_SIZE) = chunk_end at *
      obtain ⟨hmore, hle, halign', hfirst, hlast, hindex⟩ :=
        chunk_bounds halign hend hgo hchunk.symm rfl
      by_cases hx : x < chunk_end
      · -- the page is one of this chunk
        have hsame : x / 4194304 = chunk_begin / 4194304 := by
          omega
        rw [regionFor_page hregion hsame]
        refine updateRegion_had hupdate ?_ ?_ rfl
        · show (chunk_begin - chunk_begin / 4194304 * 4194304) / 4096 ≤ _
          omega
        · show _ < (chunk_end - chunk_begin / 4194304 * 4194304) / 4096
          omega
      · have hlater := ih halign' (by omega) hrest x (by omega) h2
        have hle' : (chunk_begin - chunk_begin / 4194304 * 4194304) / 4096 ≤
            (chunk_end - chunk_begin / 4194304 * 4194304) / 4096 := by omega
        have hpages := (updateRegion_updated hle' hindex
          (fun x hx => regionFor_page hregion hx) hupdate).pages x
        rw [hlast, if_neg (by omega)] at hpages
        rw [← hpages]
        exact hlater

/-- **Watchers that are taken away** were there. -/
theorem updatePageWatchers_had (h : m.updatePageWatchers false false vaddr size = .ok m')
    (hx : OnRange vaddr size x) : 0 < (m.page x).write_watchers := by
  obtain ⟨end_, hend, hloop⟩ := bind_eq_ok.mp h
  obtain ⟨-, -, rfl⟩ := (pageEnd_yields vaddr size).of_ok hend
  have h1 := pageStart_aligned vaddr
  have h2 : (pageStart (vaddr + size - 1) + 4096) % 4096 = 0 := by
    have := pageStart_aligned (vaddr + size - 1)
    omega
  refine updateChunks_had h2 _ h1 ?_ hloop x hx.1 hx.2
  show pageStart (vaddr + size - 1) + 4096 ≤ pageStart vaddr +
    (pageStart (vaddr + size - 1) + 4096 - pageStart vaddr) / 4096 * 4096
  omega

theorem updatePageWatchersForRegion_had {mask : RegionBits}
    (h : m.updatePageWatchersForRegion false false base_addr mask = .ok m')
    (hx : OnMask base_addr mask x) : 0 < (m.page x).write_watchers := by
  unfold updatePageWatchersForRegion at h
  split at h
  · cases h
  next hbase =>
    dsimp only at h
    split at h
    · cases h
    next hnonempty =>
      obtain ⟨region, rfl, hlt, hle'⟩ := mask_region hbase hnonempty
      by_cases hsingle : mask.firstRange.2 = mask.lastRange.2
      · rw [if_pos hsingle] at h
        exact updatePageWatchers_had h ((onRange_single hlt hle' hsingle x).mpr hx)
      · rw [if_neg hsingle] at h
        cases hregion : m.regionFor false (region * 4194304) with
        | none =>
          rw [hregion] at h
          cases h
        | some pages =>
          rw [hregion] at h
          rw [regionFor_page hregion hx.1]
          have hin : x % 4194304 / 4096 < 1024 := by omega
          obtain ⟨h1, h2⟩ := BitArray.bounds_of_get hin hx.2
          exact updateRegion_had h h1 h2 hx.2

/-! ## The balance of one call -/

/-- What an update with `track` adds to the write watchers of a page. -/
def sign (track : Bool) : ℤ := if track then 1 else -1

/-- What a call adds to the write watchers of the page of an address. -/
def Op.delta (x : ℕ) : Op → ℤ
  | .update track false vaddr size => if OnRange vaddr size x then sign track else 0
  | .updateForRegion track false base_addr mask => if OnMask base_addr mask x then sign track else 0
  | _ => 0

theorem changed_sign {count : ℕ} (h : track = false → 0 < count) :
    (changed track count : ℤ) = count + sign track := by
  cases track with
  | true => exact Nat.cast_succ count
  | false =>
    have hpos := h rfl
    show ((count - 1 : ℕ) : ℤ) = count + -1
    omega

theorem updated_balance {on : Prop} [Decidable on]
    (hpage : m'.page x = if on then (m.page x).updated track false else m.page x)
    (hhad : track = false → on → 0 < (m.page x).write_watchers) :
    ((m'.page x).write_watchers : ℤ) =
      (m.page x).write_watchers + if on then sign track else 0 := by
  rw [hpage]
  by_cases hon : on
  · rw [if_pos hon, if_pos hon]
    exact changed_sign fun htrack => hhad htrack hon
  · rw [if_neg hon, if_neg hon, add_zero]

theorem updated_access {on : Prop} [Decidable on]
    (hpage : m'.page x = if on then (m.page x).updated track true else m.page x) :
    (m'.page x).write_watchers = (m.page x).write_watchers := by
  rw [hpage]
  by_cases hon : on
  · rw [if_pos hon]
    rfl
  · rw [if_neg hon]

theorem noteFault_watchers (h : m.noteFault vaddr = .ok (result, m')) (x : ℕ) :
    (m'.page x).write_watchers = (m.page x).write_watchers := by
  rcases noteFault_cases h with ⟨rfl, -⟩ | ⟨-, -, -, -, hnew⟩
  · rfl
  · rw [hnew]
    by_cases hsame : x / 4096 = vaddr / 4096
    · rw [if_pos hsame, m.page_congr hsame]
      unfold faulted
      split_ifs <;> rfl
    · rw [if_neg hsame]

theorem restoreProtection_watchers (h : m.restoreProtection vaddr = .ok (result, m')) (x : ℕ) :
    (m'.page x).write_watchers = (m.page x).write_watchers := by
  unfold restoreProtection at h
  cases hregion : m.findRegion vaddr with
  | none =>
    rw [hregion] at h
    cases h
    rfl
  | some pages =>
    rw [hregion] at h
    dsimp only at h
    split at h
    · cases h
      rfl
    · obtain ⟨guest, -, hm⟩ := bind_eq_ok.mp h
      cases hm
      rfl

/-- **One call** changes the write watchers of a page by its delta. -/
theorem step_delta {op : Op} (h : m.step op = .ok m') (x : ℕ) :
    ((m'.page x).write_watchers : ℤ) = (m.page x).write_watchers + op.delta x := by
  cases op with
  | update track is_read vaddr size =>
    have hpage : m'.page x = if OnRange vaddr size x then (m.page x).updated track is_read
        else m.page x := by
      rw [(updatePageWatchers_updated h).pages x]
      simp only [and_true]
      rfl
    cases is_read with
    | true =>
      rw [updated_access hpage]
      exact (add_zero _).symm
    | false =>
      refine updated_balance hpage fun htrack hx => ?_
      subst htrack
      exact updatePageWatchers_had h hx
  | updateForRegion track is_read base_addr mask =>
    obtain ⟨begin_, end_, on, hupdated, hon⟩ := updatePageWatchersForRegion_updated h
    have hpage := hupdated.pages x
    simp only [hon x] at hpage
    cases is_read with
    | true =>
      rw [updated_access hpage]
      exact (add_zero _).symm
    | false =>
      refine updated_balance hpage fun htrack hx => ?_
      subst htrack
      exact updatePageWatchersForRegion_had h hx
  | noteFault vaddr =>
    obtain ⟨result, hfault⟩ := snd_of_map h
    rw [noteFault_watchers hfault x]
    exact (add_zero _).symm
  | restoreProtection vaddr =>
    obtain ⟨result, hrestore⟩ := snd_of_map h
    rw [restoreProtection_watchers hrestore x]
    exact (add_zero _).symm

end MagnusPS5.Graphics.PageManager
