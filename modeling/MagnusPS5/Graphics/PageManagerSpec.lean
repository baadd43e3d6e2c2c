/-
What `PageManager` does to the counts of the watchers.

`CanChange` says that a count has room for one more watcher, or one to take away. Where
it holds of every page in the mask, an update changes exactly these counts by one
(`updatePageWatchersForRegion_spec`), and stops for no other reason than that the host
refuses a protection or that the mask is page 0 alone, whose address is not accepted.
-/
import MagnusPS5.Graphics.PageManager

namespace MagnusPS5.Graphics

open Lib
open Common (BitArray)
open Kernel (GuestAddressSpace)
open List

/-! ## Counting watchers -/

/-- The access watchers or the write watchers of a page. -/
def PageState.count (is_read : Bool) (page : PageState) : ℕ :=
  if is_read then page.access_watchers else page.write_watchers

/-- One more watcher, or one less. -/
def changed (track : Bool) (count : ℕ) : ℕ := if track then count + 1 else count - 1

/-- How many watchers of a kind a page can have. -/
def limit (is_read : Bool) : ℕ := if is_read then 1 else 0x7f

/-- There is room for one more watcher, or one to take away. -/
def CanChange (track is_read : Bool) (count : ℕ) : Prop :=
  if track then count < limit is_read else 0 < count

/-- The errors that say that the host refuses a protection. -/
def HostRefuses (e : Abort) : Prop :=
  ∃ vaddr protection, e = .protectionFailed vaddr protection

/-- The count of each page is changed where `on` holds, for the one kind of watcher. -/
def Recounted (track is_read : Bool) (on : ℕ → Prop) (pages pages' : ℕ → PageState) : Prop :=
  ∀ i r, (on i ∧ r = is_read → (pages' i).count r = changed track ((pages i).count r)) ∧
    (¬ (on i ∧ r = is_read) → (pages' i).count r = (pages i).count r)

theorem addDelta_none (page : PageState) (is_read : Bool) (address : ℕ) :
    page.addDelta 0 is_read address = .ok (page.count is_read, page) := by
  cases is_read <;> rfl

/-- **`AddDelta`** changes the count by one if it can be changed. -/
theorem addDelta_spec {page : PageState} {track is_read : Bool} (address : ℕ)
    (h : CanChange track is_read (page.count is_read)) :
    ∃ page', page.addDelta (if track then 1 else -1) is_read address =
        .ok (changed track (page.count is_read), page') ∧
      page'.count is_read = changed track (page.count is_read) ∧
      page'.count (!is_read) = page.count (!is_read) := by
  cases track with
  | true =>
    cases is_read with
    | true =>
      have h' : page.access_watchers < 1 := h
      have hzero : page.access_watchers = 0 := by omega
      refine ⟨{ page with access_watchers := page.access_watchers + 1 }, ?_, rfl, rfl⟩
      exact if_neg (not_not.mpr hzero)
    | false =>
      have h' : page.write_watchers < 0x7f := h
      refine ⟨{ page with write_watchers := page.write_watchers + 1 }, ?_, rfl, rfl⟩
      exact if_neg (show ¬ page.write_watchers = 0x7f by omega)
  | false =>
    cases is_read with
    | true =>
      have h' : 0 < page.access_watchers := h
      refine ⟨{ page with access_watchers := page.access_watchers - 1 }, ?_, rfl, rfl⟩
      exact if_neg (show ¬ page.access_watchers = 0 by omega)
    | false =>
      have h' : 0 < page.write_watchers := h
      refine ⟨{ page with write_watchers := page.write_watchers - 1 }, ?_, rfl, rfl⟩
      exact if_neg (show ¬ page.write_watchers = 0 by omega)

/-! ## One region -/

theorem protect_yields (guest : Option GuestAddressSpace) (vaddr size : ℕ)
    (protection : Protection) :
    Yields HostRefuses (protect guest vaddr size protection) fun _ => True := by
  cases guest with
  | none => exact ⟨vaddr, protection, rfl⟩
  | some guest =>
    unfold protect
    exact yields_ite (fun _ => trivial) fun _ => ⟨vaddr, protection, rfl⟩

theorem releasePending_yields (base_addr : ℕ) (s : Sweep) :
    Yields HostRefuses (releasePending base_addr s) fun s' => s'.pages = s.pages := by
  refine yields_ite (fun _ => ?_) fun _ => rfl
  exact (protect_yields _ _ _ _).bind fun _ _ => yields_pure rfl

theorem gather_yields (base_addr : ℕ) (new_perms : Protection) (s : Sweep) :
    Yields HostRefuses (gather base_addr new_perms s) fun s' => s'.pages = s.pages := by
  refine yields_ite (fun _ => ?_) fun _ => yields_ite (fun _ => rfl) fun _ => rfl
  exact (releasePending_yields base_addr s).bind fun _ hs => yields_pure hs

/-- **One page.** -/
theorem updatePage_yields (hot_page_escape track is_read : Bool) (base_addr : ℕ)
    (mask : ℕ → Bool) (k : ℕ) (s : Sweep)
    (h : mask k = true → CanChange track is_read ((s.pages k).count is_read)) :
    Yields HostRefuses (updatePage hot_page_escape track is_read base_addr mask k s) fun s' =>
      Recounted track is_read (fun i => i = k ∧ mask i = true) s.pages s'.pages := by
  -- the flag `managed` takes no part in the counts
  have hmanaged : ∃ page : PageState, page = (if track then
        { s.pages k with managed := (s.pages k).managed || mask k } else s.pages k) ∧
      ∀ r, page.count r = (s.pages k).count r := by
    refine ⟨_, rfl, fun r => ?_⟩
    cases track <;> rfl
  obtain ⟨page, hpage, hcount⟩ := hmanaged
  unfold updatePage
  dsimp only
  rw [← hpage]
  -- the page after `AddDelta`
  have hdelta : ∃ new_count page', page.addDelta
        (if mask k = true then if track = true then 1 else -1 else 0) is_read
        (base_addr + k * TRACKER_PAGE_SIZE) = .ok (new_count, page') ∧
      ∀ r, page'.count r =
        if mask k = true ∧ r = is_read then changed track ((s.pages k).count r)
        else (s.pages k).count r := by
    by_cases hmask : mask k = true
    · have hcan := h hmask
      rw [← hcount] at hcan
      obtain ⟨page', heq, hsame, hother⟩ :=
        addDelta_spec (base_addr + k * TRACKER_PAGE_SIZE) hcan
      rw [if_pos hmask]
      refine ⟨_, page', heq, fun r => ?_⟩
      by_cases hr : r = is_read
      · rw [if_pos ⟨hmask, hr⟩, hr, hsame, hcount]
      · obtain rfl : r = !is_read := Bool.eq_not.mpr hr
        rw [if_neg (fun hc => hr hc.2), hother, hcount]
    · rw [if_neg hmask]
      refine ⟨_, page, addDelta_none _ _ _, fun r => ?_⟩
      rw [if_neg (fun hc => hmask hc.1), hcount]
  obtain ⟨new_count, page', heq, hcounts⟩ := hdelta
  rw [heq]
  have hdone : Recounted track is_read (fun i => i = k ∧ mask i = true) s.pages
      (Function.update s.pages k page') := by
    intro i r
    by_cases hi : i = k
    · subst hi
      rw [Function.update_self, hcounts]
      by_cases hr : mask i = true ∧ r = is_read
      · rw [if_pos hr]
        exact ⟨fun _ => rfl, fun hn => absurd ⟨⟨rfl, hr.1⟩, hr.2⟩ hn⟩
      · rw [if_neg hr]
        exact ⟨fun hn => absurd ⟨hn.1.2, hn.2⟩ hr, fun _ => rfl⟩
    · rw [Function.update_of_ne hi]
      exact ⟨fun hn => absurd hn.1.1 hi, fun _ => rfl⟩
  refine (gather_yields _ _ _).bind fun s' hs' => ?_
  have hs : Recounted track is_read (fun i => i = k ∧ mask i = true) s.pages s'.pages := by
    rw [hs']
    exact hdone
  refine yields_ite (fun _ => yields_pure hs) fun _ => yields_ite (fun _ => yields_pure ?_)
    fun _ => yields_pure hs
  split <;> exact hs

/-- **`UpdateRegionWatchers`** changes the counts of the pages in the mask by one. -/
theorem updateRegionWatchers_yields (hot_page_escape track is_read : Bool)
    (base_addr first last : ℕ) (mask : ℕ → Bool) (pages : ℕ → PageState)
    (guest : Option GuestAddressSpace) (h : ∀ i, first ≤ i → i < last → mask i = true →
      CanChange track is_read ((pages i).count is_read)) :
    Yields HostRefuses
      (updateRegionWatchers hot_page_escape track is_read base_addr first last mask pages guest)
      fun result => Recounted track is_read
        (fun i => (first ≤ i ∧ i < last) ∧ mask i = true) pages result.1 := by
  have hrange : ∀ i, i ∈ range' first (last - first) ↔ first ≤ i ∧ i < last := by
    intro i
    rw [mem_range'_1]
    omega
  -- the pages that are still to come have their counts of the start
  let Inv : List ℕ → Sweep → Prop := fun rest s =>
    rest.Nodup ∧ (∀ i ∈ rest, first ≤ i ∧ i < last) ∧ Recounted track is_read
      (fun i => ((first ≤ i ∧ i < last) ∧ i ∉ rest) ∧ mask i = true) pages s.pages
  have hstart : Inv (range' first (last - first))
      { pages, guest, perms := (pages first).perms hot_page_escape } := by
    refine ⟨nodup_range', fun i hi => (hrange i).mp hi, fun i r => ⟨fun hc => ?_, fun _ => rfl⟩⟩
    exact absurd ((hrange i).mpr hc.1.1.1) hc.1.1.2
  refine (yields_foldlM hstart ?_).bind ?_
  · rintro k rest s ⟨hnodup, hbounds, hs⟩
    obtain ⟨hk, hrest⟩ := nodup_cons.mp hnodup
    have hkin := hbounds k mem_cons_self
    have hsame : ∀ r, (s.pages k).count r = (pages k).count r := fun r =>
      (hs k r).2 fun hc => hc.1.1.2 mem_cons_self
    refine (updatePage_yields _ _ _ _ _ _ _ fun hmask => ?_).mono fun s' hs' =>
      ⟨hrest, fun i hi => hbounds i (.tail _ hi), fun i r => ?_⟩
    · rw [hsame]
      exact h k hkin.1 hkin.2 hmask
    · by_cases hi : i = k
      · subst hi
        constructor
        · intro hc
          rw [(hs' i r).1 ⟨⟨rfl, hc.1.2⟩, hc.2⟩, hsame]
        · intro hc
          rw [(hs' i r).2 fun hn => hc ⟨⟨⟨hkin, hk⟩, hn.1.2⟩, hn.2⟩, hsame]
      · rw [(hs' i r).2 fun hn => hi hn.1.1]
        constructor
        · intro hc
          refine (hs i r).1 ⟨⟨⟨hc.1.1.1, fun hm => ?_⟩, hc.1.2⟩, hc.2⟩
          rcases mem_cons.mp hm with hm | hm
          · exact hi hm
          · exact hc.1.1.2 hm
        · intro hc
          refine (hs i r).2 fun hn => hc ⟨⟨⟨hn.1.1.1, fun hm => ?_⟩, hn.1.2⟩, hn.2⟩
          exact hn.1.1.2 (.tail _ hm)
  · rintro s ⟨-, -, hs⟩
    refine (releasePending_yields base_addr s).bind fun s' hs' => yields_pure ?_
    intro i r
    have hir := hs i r
    rw [hs']
    refine ⟨fun hc => hir.1 ⟨⟨⟨hc.1.1, not_mem_nil⟩, hc.1.2⟩, hc.2⟩, fun hc => hir.2 fun hn => ?_⟩
    exact hc ⟨⟨hn.1.1.1, hn.1.2⟩, hn.2⟩

/-! ## The manager -/

namespace PageManager

/-- How many watchers of a kind the page of a region has. -/
def count (m : PageManager) (is_read : Bool) (region index : ℕ) : ℕ :=
  match m.regions region with
  | none => 0
  | some pages => (pages index).count is_read

/-- What an update does to the counts of all pages. -/
def Changed (m m' : PageManager) (track is_read : Bool) (region : ℕ) (on : ℕ → Prop) : Prop :=
  m'.hot_page_escape = m.hot_page_escape ∧
  ∀ k i r, (k = region ∧ on i ∧ r = is_read →
      m'.count r k i = changed track (m.count r k i)) ∧
    (¬ (k = region ∧ on i ∧ r = is_read) → m'.count r k i = m.count r k i)

theorem updateRegion_yields (m : PageManager) (track is_read : Bool) {base_addr region : ℕ}
    (hbase : base_addr / TRACKER_REGION_SIZE = region) (first last : ℕ) (mask : ℕ → Bool)
    {pages : ℕ → PageState} (hpages : ∀ r i, (pages i).count r = m.count r region i)
    (h : ∀ i, first ≤ i → i < last → mask i = true →
      CanChange track is_read (m.count is_read region i)) :
    Yields HostRefuses (m.updateRegion track is_read base_addr first last mask pages) fun m' =>
      m.Changed m' track is_read region fun i => (first ≤ i ∧ i < last) ∧ mask i = true := by
  refine (updateRegionWatchers_yields _ _ _ _ _ _ _ _ _ fun i h1 h2 h3 => ?_).bind ?_
  · rw [hpages]
    exact h i h1 h2 h3
  · rintro ⟨pages', guest'⟩ hnew
    refine yields_pure ⟨rfl, fun k i r => ?_⟩
    rw [hbase]
    by_cases hk : k = region
    · subst hk
      have hcount : ∀ r i, count { m with
          regions := Function.update m.regions k (some pages'), guest := guest' } r k i =
          (pages' i).count r := by
        intro r i
        unfold count
        dsimp only
        rw [Function.update_self]
      rw [hcount, ← hpages]
      exact ⟨fun hc => (hnew i r).1 ⟨hc.2.1, hc.2.2⟩,
        fun hc => (hnew i r).2 fun hn => hc ⟨rfl, hn.1, hn.2⟩⟩
    · have hcount : ∀ r i, count { m with
          regions := Function.update m.regions region (some pages'), guest := guest' } r k i =
          m.count r k i := by
        intro r i
        unfold count
        dsimp only
        rw [Function.update_of_ne hk]
      rw [hcount]
      exact ⟨fun hc => absurd hc.1 hk, fun _ => rfl⟩

/-- The pages of the region that an update works on have the counts of the manager; a
region is there if one of its pages has a watcher. -/
theorem regionFor_eq_some (m : PageManager) (track is_read : Bool) {vaddr region index : ℕ}
    (hregion : vaddr / TRACKER_REGION_SIZE = region) (haddr : vaddr < TRACKER_ADDRESS_SIZE)
    (h : CanChange track is_read (m.count is_read region index)) :
    ∃ pages, m.regionFor track vaddr = some pages ∧
      ∀ r i, (pages i).count r = m.count r region i := by
  unfold regionFor
  cases track with
  | true =>
    refine ⟨m.getOrCreateRegion vaddr, rfl, fun r i => ?_⟩
    unfold getOrCreateRegion count
    rw [hregion]
    cases m.regions region with
    | none => cases r <;> rfl
    | some pages => rfl
  | false =>
    have hpos : 0 < m.count is_read region index := h
    unfold findRegion
    rw [if_neg (by simp), if_pos haddr, hregion]
    unfold count at hpos ⊢
    cases hm : m.regions region with
    | none =>
      rw [hm] at hpos
      exact absurd hpos (lt_irrefl 0)
    | some pages => exact ⟨pages, rfl, fun _ _ => rfl⟩

/-- The errors of an update: the host refuses a protection, or the page is page 0. -/
def Refused (e : Abort) : Prop :=
  HostRefuses e ∨ ∃ vaddr size, e = .invalidRange vaddr size

theorem pageStart_page (n : ℕ) : pageStart (n * 4096) = n * 4096 := by
  unfold pageStart TRACKER_PAGE_SIZE
  omega

theorem page_in_region (region k : ℕ) :
    ((region * 1024 + k) * 4096 - region * 4194304) / 4096 = k := by omega

theorem updatePageWatchers_yields (m : PageManager) (track is_read : Bool)
    {region first last : ℕ} (hregion : region < 262144) (hlt : first < last)
    (hlast : last ≤ TRACKER_REGION_PAGES)
    (h : ∀ i, first ≤ i → i < last → CanChange track is_read (m.count is_read region i)) :
    Yields Refused (m.updatePageWatchers track is_read
      (region * TRACKER_REGION_SIZE + first * TRACKER_PAGE_SIZE)
      ((last - first) * TRACKER_PAGE_SIZE)) fun m' =>
      m.Changed m' track is_read region fun i => first ≤ i ∧ i < last := by
  have hlast' : last ≤ 1024 := hlast
  have hbegin : region * TRACKER_REGION_SIZE + first * TRACKER_PAGE_SIZE =
      (region * 1024 + first) * 4096 := by
    show region * 4194304 + first * 4096 = _
    omega
  have hend : pageStart ((region * 1024 + first) * 4096 + (last - first) * 4096 - 1) + 4096 =
      (region * 1024 + last) * 4096 := by
    show (region * 1024 + first) * 4096 + (last - first) * 4096 - 1 -
      ((region * 1024 + first) * 4096 + (last - first) * 4096 - 1) % 4096 + 4096 = _
    omega
  rw [hbegin]
  unfold updatePageWatchers pageEnd validateRange
  by_cases hzero : (region * 1024 + first) * 4096 = 0
  · -- the page at address 0 is not accepted
    rw [if_pos (.inl hzero)]
    exact .inr ⟨_, _, rfl⟩
  · have hvalid : ¬ ((region * 1024 + first) * 4096 = 0 ∨ (last - first) * TRACKER_PAGE_SIZE = 0 ∨
        (region * 1024 + first) * 4096 ≥ TRACKER_ADDRESS_SIZE ∨
        (last - first) * TRACKER_PAGE_SIZE >
          TRACKER_ADDRESS_SIZE - (region * 1024 + first) * 4096) := by
      show ¬ ((region * 1024 + first) * 4096 = 0 ∨ (last - first) * 4096 = 0 ∨
        (region * 1024 + first) * 4096 ≥ 1099511627776 ∨
        (last - first) * 4096 > 1099511627776 - (region * 1024 + first) * 4096)
      omega
    rw [if_neg hvalid]
    show Yields Refused (updateChunks track is_read
      (pageStart ((region * 1024 + first) * 4096 + (last - first) * 4096 - 1) + 4096)
      ((pageStart ((region * 1024 + first) * 4096 + (last - first) * 4096 - 1) + 4096 -
        pageStart ((region * 1024 + first) * 4096)) / 4096)
      (pageStart ((region * 1024 + first) * 4096)) m) _
    rw [hend, pageStart_page]
    have hfuel : ((region * 1024 + last) * 4096 - (region * 1024 + first) * 4096) / 4096 =
        (last - first - 1) + 1 := by omega
    rw [hfuel]
    have hdiv : (region * 1024 + first) * 4096 / 4194304 = region := by omega
    have haddr : (region * 1024 + first) * 4096 < 1099511627776 := by omega
    have hbase : region * 4194304 / 4194304 = region := Nat.mul_div_cancel _ (by decide)
    obtain ⟨pages, hpages, hcounts⟩ := m.regionFor_eq_some track is_read hdiv haddr
      (h first le_rfl hlt)
    unfold updateChunks
    rw [if_pos (by omega)]
    -- the chunk ends with the interval
    have hchunk : min ((region * 1024 + last) * 4096) ((region + 1) * 4194304) =
        (region * 1024 + last) * 4096 := by
      rw [Nat.succ_mul]
      omega
    simp only [TRACKER_REGION_SIZE, TRACKER_PAGE_SIZE, hdiv, hchunk, page_in_region, hpages]
    refine ((m.updateRegion_yields track is_read hbase first last (fun _ => true) hcounts
      fun i h1 h2 _ => h i h1 h2).mono_error fun e he => .inl he).bind fun m' hm' => ?_
    -- nothing is left after the one chunk
    have hstop : updateChunks track is_read ((region * 1024 + last) * 4096) (last - first - 1)
        ((region * 1024 + last) * 4096) m' = .ok m' := by
      cases last - first - 1 with
      | zero => rfl
      | succ n => exact if_neg (lt_irrefl _)
    rw [hstop]
    refine ⟨hm'.1, fun k i r => ⟨fun hc => (hm'.2 k i r).1 ⟨hc.1, ⟨hc.2.1, rfl⟩, hc.2.2⟩,
      fun hc => (hm'.2 k i r).2 fun hn => hc ⟨hn.1, hn.2.1.1, hn.2.2⟩⟩⟩

/-- **`UpdatePageWatchersForRegion`** changes the counts of the pages in the mask by one. -/
theorem updatePageWatchersForRegion_spec (m : PageManager) (track is_read : Bool) {region : ℕ}
    (hregion : region < 262144) {mask : RegionBits} (hmask : mask.isNone = false)
    (h : ∀ i, i < TRACKER_REGION_PAGES → mask.get i = true →
      CanChange track is_read (m.count is_read region i)) :
    Yields Refused
      (m.updatePageWatchersForRegion track is_read (region * TRACKER_REGION_SIZE) mask) fun m' =>
      m.Changed m' track is_read region fun i => i < TRACKER_REGION_PAGES ∧ mask.get i = true := by
  obtain ⟨hlt, hle⟩ := BitArray.range_bounds hmask
  unfold updatePageWatchersForRegion
  have hbase : ¬ (region * TRACKER_REGION_SIZE % TRACKER_REGION_SIZE ≠ 0 ∨
      region * TRACKER_REGION_SIZE ≥ TRACKER_ADDRESS_SIZE ∨
      TRACKER_REGION_SIZE > TRACKER_ADDRESS_SIZE - region * TRACKER_REGION_SIZE) := by
    show ¬ (region * 4194304 % 4194304 ≠ 0 ∨ region * 4194304 ≥ 1099511627776 ∨
      4194304 > 1099511627776 - region * 4194304)
    omega
  have hnonempty : ¬ mask.firstRange.1 = TRACKER_REGION_PAGES := by
    show ¬ mask.firstRange.1 = 1024
    omega
  rw [if_neg hbase]
  rw [if_neg hnonempty]
  by_cases hsingle : mask.firstRange.2 = mask.lastRange.2
  · rw [if_pos hsingle]
    have hset : ∀ i, i < 1024 →
        (mask.get i = true ↔ mask.firstRange.1 ≤ i ∧ i < mask.lastRange.2) :=
      fun i hi => BitArray.get_iff_of_single hsingle hi
    refine (m.updatePageWatchers_yields track is_read hregion hlt hle fun i h1 h2 =>
      h i (lt_of_lt_of_le h2 hle)
        ((hset i (lt_of_lt_of_le h2 hle)).mpr ⟨h1, h2⟩)).mono fun m' hm' =>
      ⟨hm'.1, fun k i r => ⟨fun hc => (hm'.2 k i r).1 ⟨hc.1, (hset i hc.2.1.1).mp hc.2.1.2, hc.2.2⟩,
        fun hc => (hm'.2 k i r).2 fun hn => hc ⟨hn.1, ?_, hn.2.2⟩⟩⟩
    have hi : i < 1024 := lt_of_lt_of_le hn.2.1.2 hle
    exact ⟨hi, (hset i hi).mpr hn.2.1⟩
  · rw [if_neg hsingle]
    have hany : mask.isAny = true := by
      unfold BitArray.isAny
      rw [hmask]
      rfl
    obtain ⟨j, hj, hset⟩ := (BitArray.isAny_iff mask).mp hany
    have haddr : region * 4194304 < 1099511627776 := by omega
    have hdiv : region * 4194304 / 4194304 = region := by omega
    obtain ⟨pages, hpages, hcounts⟩ := m.regionFor_eq_some track is_read hdiv haddr (h j hj hset)
    have hpages' : m.regionFor track (region * TRACKER_REGION_SIZE) = some pages := hpages
    simp only [hpages']
    refine ((m.updateRegion_yields track is_read hdiv mask.firstRange.1 mask.lastRange.2 mask.get
      hcounts fun i h1 h2 h3 => h i (lt_of_lt_of_le h2 hle) h3).mono_error fun e he => .inl he).mono
      fun m' hm' => ⟨hm'.1, fun k i r => ⟨fun hc => (hm'.2 k i r).1
        ⟨hc.1, ⟨BitArray.bounds_of_get hc.2.1.1 hc.2.1.2, hc.2.1.2⟩, hc.2.2⟩,
        fun hc => (hm'.2 k i r).2 fun hn =>
          hc ⟨hn.1, ⟨lt_of_lt_of_le hn.2.1.1.2 hle, hn.2.1.2⟩, hn.2.2⟩⟩⟩

end PageManager

end MagnusPS5.Graphics
