/-
The protections that the page manager has asked the host for, over runs.

Watchers are added and removed over ranges and masks, faults are counted and protections
restored (`Op`). Each call has its list of calls to the host (`calls`), and `Effect` is what
they have in common: a call to the host covers only pages that need its protection
afterwards, and a managed page that needs another one than before is covered. So the last
call for a managed page has always the protection that the page needs.
-/
import MagnusPS5.Graphics.PageManagerCalls
import MagnusPS5.Graphics.TrackedMemory

namespace MagnusPS5.Graphics.PageManager

open Lib
open Common (BitArray)
open Kernel (GuestAddressSpace)
open Option List PageState ProtectCall

/-! ## The calls to the host -/

/-- The calls of the loop of `UpdatePageWatchers`. -/
def chunkCalls (track is_read : Bool) (end_ : ℕ) : ℕ → ℕ → PageManager → List ProtectCall
  | 0, _, _ => []
  | fuel + 1, chunk_begin, m =>
    if chunk_begin < end_ then
      let chunk_end := min end_ ((chunk_begin / TRACKER_REGION_SIZE + 1) * TRACKER_REGION_SIZE)
      let region_base := chunk_begin / TRACKER_REGION_SIZE * TRACKER_REGION_SIZE
      (m.regionFor track chunk_begin).elim [] fun pages =>
        let first := (chunk_begin - region_base) / TRACKER_PAGE_SIZE
        let last := (chunk_end - region_base) / TRACKER_PAGE_SIZE
        updateRegionCalls m.hot_page_escape track is_read region_base first last
            (fun _ => true) pages m.guest ++
          following
            (m.updateRegion track is_read region_base first last (fun _ => true) pages)
            (chunkCalls track is_read end_ fuel chunk_end)
    else []

variable (m : PageManager)

/-- The calls of `UpdatePageWatchers`. -/
def updateCalls (track is_read : Bool) (vaddr size : ℕ) : List ProtectCall :=
  following (pageEnd vaddr size) fun end_ =>
    chunkCalls track is_read end_ ((end_ - pageStart vaddr) / TRACKER_PAGE_SIZE)
      (pageStart vaddr) m

/-- The calls of `UpdatePageWatchersForRegion`. -/
def updateForRegionCalls (track is_read : Bool) (base_addr : ℕ)
    (mask : RegionBits) : List ProtectCall :=
  let first := mask.firstRange.1
  let last := mask.lastRange.2
  if mask.firstRange.2 = mask.lastRange.2 then
    m.updateCalls track is_read (base_addr + first * TRACKER_PAGE_SIZE)
      ((last - first) * TRACKER_PAGE_SIZE)
  else
    (m.regionFor track base_addr).elim [] fun pages =>
      updateRegionCalls m.hot_page_escape track is_read base_addr first last mask.get pages m.guest

/-- The page of an address, which is a new one while its region does not exist. -/
def page (x : ℕ) : PageState :=
  m.getOrCreateRegion x (x % TRACKER_REGION_SIZE / TRACKER_PAGE_SIZE)

/-- The page of an address, if its region is found. -/
def found (vaddr : ℕ) : Option PageState :=
  (m.findRegion vaddr).map fun pages => pages (vaddr % TRACKER_REGION_SIZE / TRACKER_PAGE_SIZE)

/-- A page with one more fault. -/
def faulted (page : PageState) : PageState :=
  if page.faults ≠ 255 then { page with faults := page.faults + 1 } else page

/-- The calls of `NoteFault`. -/
def noteFaultCalls (vaddr : ℕ) : List ProtectCall :=
  (m.found vaddr).elim [] fun state =>
    if state.managed = true ∧ m.hot_page_escape = true ∧ (faulted state).faults = 3 then
      [⟨pageStart vaddr, TRACKER_PAGE_SIZE, .readWrite⟩]
    else []

/-- The calls of `RestoreProtection`. -/
def restoreCalls (vaddr : ℕ) : List ProtectCall :=
  (m.found vaddr).elim [] fun state =>
    if state.managed = true then
      [⟨pageStart vaddr, TRACKER_PAGE_SIZE, state.perms m.hot_page_escape⟩]
    else []

/-! ## Updates of an interval -/

/-- An update of the pages of a mask in an interval, with its calls to the host. -/
structure Updated (m m' : PageManager) (track is_read : Bool) (begin_ end_ : ℕ) (mask : ℕ → Bool)
    (calls : List ProtectCall) : Prop where
  escape : m'.hot_page_escape = m.hot_page_escape
  host : replay calls m.guest = .ok m'.guest
  pages : ∀ x, m'.page x = if begin_ ≤ x ∧ x < end_ ∧ mask x = true then
    (m.page x).updated track is_read else m.page x
  within : ∀ call ∈ calls, ∀ x, call.covers x = true → begin_ ≤ x ∧ x < end_
  exact : ∀ call ∈ calls, ∀ x, call.covers x = true →
    (m'.page x).perms m.hot_page_escape = call.protection
  covered : ∀ x, (m'.page x).perms m.hot_page_escape ≠ (m.page x).perms m.hot_page_escape →
    ∃ call ∈ calls, call.covers x = true

variable {begin_ end_ vaddr x region : ℕ} {m m' : PageManager} {track is_read : Bool}

theorem Updated.nothing (m : PageManager) (track is_read : Bool)
    (h : end_ ≤ begin_) (mask : ℕ → Bool) : Updated m m track is_read begin_ end_ mask [] where
  escape := rfl
  host := rfl
  pages x := by rw [if_neg (by omega)]
  within _ hcall := nomatch hcall
  exact _ hcall := nomatch hcall
  covered x hne := absurd rfl hne

variable {m₁ m₂ : PageManager} {pages : ℕ → PageState} {first last chunk_begin base_addr : ℕ}
  {mask : RegionBits} {result hot_page_escape : Bool} {log log' : List ProtectCall}

/-- **One interval behind the other.** -/
theorem Updated.append {mid : ℕ} {calls calls' : List ProtectCall}
    (h : Updated m m₁ track is_read begin_ mid (fun _ => true) calls)
    (h' : Updated m₁ m₂ track is_read mid end_ (fun _ => true) calls') (h1 : begin_ ≤ mid)
    (h2 : mid ≤ end_) :
    Updated m m₂ track is_read begin_ end_ (fun _ => true) (calls ++ calls') := by
  -- each interval keeps the pages of the other
  have hfirst : ∀ x, x < mid → m₂.page x = m₁.page x := by
    intro x hx
    rw [h'.pages, if_neg (by omega)]
  have hsecond : ∀ x, mid ≤ x → m₁.page x = m.page x := by
    intro x hx
    rw [h.pages, if_neg (by omega)]
  refine ⟨h'.escape.trans h.escape, ?_, fun x => ?_, fun call hcall x hx => ?_,
    fun call hcall x hx => ?_, fun x hne => ?_⟩
  · rw [replay_append h.host]
    exact h'.host
  · by_cases hx : x < mid
    · rw [hfirst x hx, h.pages]
      congr 1
      exact propext ⟨fun hc => ⟨hc.1, by omega, rfl⟩, fun hc => ⟨hc.1, hx, rfl⟩⟩
    · rw [h'.pages, hsecond x (by omega)]
      congr 1
      exact propext ⟨fun hc => ⟨by omega, hc.2⟩, fun hc => ⟨by omega, hc.2⟩⟩
  · rcases mem_append.mp hcall with hcall | hcall
    · have hwithin := h.within call hcall x hx
      omega
    · have hwithin := h'.within call hcall x hx
      omega
  · rcases mem_append.mp hcall with hcall | hcall
    · rw [hfirst x (h.within call hcall x hx).2]
      exact h.exact call hcall x hx
    · rw [← h.escape]
      exact h'.exact call hcall x hx
  · by_cases hx : x < mid
    · rw [hfirst x hx] at hne
      obtain ⟨call, hcall, hcovers⟩ := h.covered x hne
      exact ⟨call, mem_append_left _ hcall, hcovers⟩
    · rw [← hsecond x (by omega), ← h.escape] at hne
      obtain ⟨call, hcall, hcovers⟩ := h'.covered x hne
      exact ⟨call, mem_append_right _ hcall, hcovers⟩

theorem regionFor_page (h : m.regionFor track vaddr = some pages)
    (hx : x / 4194304 = vaddr / 4194304) : m.page x = pages (x % 4194304 / 4096) := by
  have hregion : m.regions (x / TRACKER_REGION_SIZE) = m.regions (vaddr / TRACKER_REGION_SIZE) :=
    congrArg m.regions hx
  unfold page getOrCreateRegion
  rw [hregion]
  rcases regionFor_cases h with hsome | ⟨hnone, rfl⟩
  · rw [hsome]
    rfl
  · rw [hnone]
    rfl

/-- **An update of one region.** -/
theorem updateRegion_updated {mask : ℕ → Bool} (hle : first ≤ last)
    (hlast : last ≤ 1024) (hpages : ∀ x, x / 4194304 = region → m.page x = pages (x % 4194304 / 4096))
    (h : m.updateRegion track is_read (region * 4194304) first last mask pages = .ok m') :
    Updated m m' track is_read (region * 4194304 + first * 4096) (region * 4194304 + last * 4096)
      (fun x => mask (x % 4194304 / 4096))
      (updateRegionCalls m.hot_page_escape track is_read (region * 4194304) first last mask pages
        m.guest) := by
  obtain ⟨⟨pages', guest'⟩, hupdate, hm⟩ := bind_eq_ok.mp h
  obtain ⟨hnew, hhost, hexact, hcovered⟩ := updateRegionWatchers_ok hle hupdate
  -- what a call covers
  have hinside : ∀ call ∈ updateRegionCalls m.hot_page_escape track is_read (region * 4194304) first
      last mask pages m.guest, ∀ x, call.covers x = true →
      (region * 4194304 + first * 4096 ≤ x ∧ x < region * 4194304 + last * 4096) ∧
        (pages' (x % 4194304 / 4096)).perms m.hot_page_escape = call.protection := by
    intro call hcall x hx
    obtain ⟨begin_, end_, h1, h2, hvaddr, hsize, hprotection⟩ := hexact call hcall
    have hx' : call.vaddr ≤ x ∧ x < call.vaddr + call.size := of_decide_eq_true hx
    rw [hsize, hvaddr] at hx'
    exact ⟨⟨by omega, by omega⟩, hprotection _ (by omega) (by omega)⟩
  have hindex : region * 4194304 / TRACKER_REGION_SIZE = region :=
    Nat.mul_div_cancel region (by decide)
  rw [hindex] at hm
  cases hm
  have hsame : ∀ x, x / 4194304 = region → page { m with
      regions := Function.update m.regions region (some pages')
      guest := guest' } x = pages' (x % 4194304 / 4096) := by
    intro x hx
    have hx' : x / TRACKER_REGION_SIZE = region := hx
    unfold page getOrCreateRegion
    dsimp only
    rw [hx', Function.update_self]
    rfl
  have hother : ∀ x, x / 4194304 ≠ region → page { m with
      regions := Function.update m.regions region (some pages')
      guest := guest' } x = m.page x := by
    intro x hx
    have hx' : x / TRACKER_REGION_SIZE ≠ region := hx
    unfold page getOrCreateRegion
    dsimp only
    rw [Function.update_of_ne hx']
  refine ⟨rfl, hhost, fun x => ?_, fun call hcall x hx => (hinside call hcall x hx).1,
    fun call hcall x hx => ?_, fun x hne => ?_⟩
  · by_cases hx : x / 4194304 = region
    · rw [hsame x hx, hnew, hpages x hx]
      congr 1
      exact propext ⟨fun hc => ⟨by omega, by omega, hc.2.2⟩, fun hc => ⟨by omega, by omega, hc.2.2⟩⟩
    · rw [hother x hx, if_neg (by omega)]
  · obtain ⟨hbounds, hprotection⟩ := hinside call hcall x hx
    rw [hsame x (by omega)]
    exact hprotection
  · by_cases hx : x / 4194304 = region
    · rw [hsame x hx, hpages x hx] at hne
      obtain ⟨call, hcall, hcovers⟩ := hcovered _ hne
      obtain ⟨begin_, end_, h1, h2, hvaddr, hsize, -⟩ := hexact call hcall
      have hx' : call.vaddr ≤ region * 4194304 + x % 4194304 / 4096 * 4096 ∧
          region * 4194304 + x % 4194304 / 4096 * 4096 < call.vaddr + call.size :=
        of_decide_eq_true hcovers
      refine ⟨call, hcall, decide_eq_true ?_⟩
      rw [hsize, hvaddr] at hx' ⊢
      omega
    · rw [hother x hx] at hne
      exact absurd rfl hne

theorem chunk_bounds (halign : chunk_begin % 4096 = 0)
    (hend : end_ % 4096 = 0) (hgo : chunk_begin < end_) {chunk_end region_base : ℕ}
    (hchunk : chunk_end = min end_ ((chunk_begin / 4194304 + 1) * 4194304))
    (hbase : region_base = chunk_begin / 4194304 * 4194304) :
    chunk_begin + 4096 ≤ chunk_end ∧ chunk_end ≤ end_ ∧ chunk_end % 4096 = 0 ∧
      region_base + (chunk_begin - region_base) / 4096 * 4096 = chunk_begin ∧
      region_base + (chunk_end - region_base) / 4096 * 4096 = chunk_end ∧
      (chunk_end - region_base) / 4096 ≤ 1024 := by
  have hnext : (chunk_begin / 4194304 + 1) * 4194304 = region_base + 4194304 := by
    rw [hbase, Nat.succ_mul]
  rw [hnext] at hchunk
  obtain ⟨h1, h2⟩ : chunk_end ≤ end_ ∧ chunk_end ≤ region_base + 4194304 := by omega
  refine ⟨by omega, h1, by omega, by omega, by omega, by omega⟩

/-- **The loop of `UpdatePageWatchers`.** -/
theorem updateChunks_updated (fuel : ℕ) (halign : chunk_begin % 4096 = 0) (hend : end_ % 4096 = 0)
    (hfuel : end_ ≤ chunk_begin + fuel * 4096)
    (h : updateChunks track is_read end_ fuel chunk_begin m = .ok m') :
    Updated m m' track is_read chunk_begin end_ (fun _ => true)
      (chunkCalls track is_read end_ fuel chunk_begin m) := by
  induction fuel generalizing chunk_begin m with
  | zero =>
    obtain rfl := Except.ok.inj h
    exact .nothing m track is_read (by omega) _
  | succ fuel ih =>
    unfold updateChunks at h
    unfold chunkCalls
    by_cases hgo : chunk_begin < end_
    · rw [if_pos hgo] at h
      rw [if_pos hgo]
      dsimp only at h ⊢
      cases hregion : m.regionFor track chunk_begin with
      | none =>
        rw [hregion] at h
        cases h
      | some pages =>
        rw [hregion] at h
        obtain ⟨m₁, hupdate, hrest⟩ := bind_eq_ok.mp h
        rw [elim_some, hupdate]
        unfold following
        generalize hchunk : min end_
          ((chunk_begin / TRACKER_REGION_SIZE + 1) * TRACKER_REGION_SIZE) = chunk_end at *
        obtain ⟨h1, h2, h3, hfirst, hlast, hle⟩ := chunk_bounds halign hend hgo hchunk.symm rfl
        have hlt : chunk_begin ≤ chunk_end := Nat.le_of_add_right_le h1
        have hone := updateRegion_updated (Nat.div_le_div_right (Nat.sub_le_sub_right hlt _))
          hle (fun x hx => regionFor_page hregion hx) hupdate
        rw [hfirst, hlast] at hone
        have hrestfuel : end_ ≤ chunk_end + fuel * 4096 := by
          omega
        exact hone.append (ih h3 hrestfuel hrest) hlt h2
    · rw [if_neg hgo] at h
      rw [if_neg hgo]
      obtain rfl := Except.ok.inj h
      exact .nothing m track is_read (by omega) _

/-- The address is on a page that the range touches. -/
def OnRange (vaddr size x : ℕ) : Prop :=
  pageStart vaddr ≤ x ∧ x < pageStart (vaddr + size - 1) + TRACKER_PAGE_SIZE

instance (vaddr size x : ℕ) : Decidable (OnRange vaddr size x) :=
  inferInstanceAs (Decidable (_ ∧ _))

/-- **`UpdatePageWatchers`.** -/
theorem updatePageWatchers_updated {size : ℕ}
    (h : m.updatePageWatchers track is_read vaddr size = .ok m') :
    Updated m m' track is_read (pageStart vaddr) (pageStart (vaddr + size - 1) + 4096)
      (fun _ => true) (m.updateCalls track is_read vaddr size) := by
  obtain ⟨end_, hend, hloop⟩ := bind_eq_ok.mp h
  unfold updateCalls
  rw [hend]
  unfold following
  obtain ⟨-, -, hlast⟩ := bind_eq_ok.mp hend
  cases hlast
  have halign : pageStart vaddr % 4096 = 0 := pageStart_aligned vaddr
  have halign' : (pageStart (vaddr + size - 1) + 4096) % 4096 = 0 := by
    have := pageStart_aligned (vaddr + size - 1)
    omega
  refine updateChunks_updated _ halign halign' ?_ hloop
  show pageStart (vaddr + size - 1) + 4096 ≤ pageStart vaddr +
    (pageStart (vaddr + size - 1) + 4096 - pageStart vaddr) / 4096 * 4096
  omega

/-- The address is on a page of the mask of a region. -/
def OnMask (base_addr : ℕ) (mask : RegionBits) (x : ℕ) : Prop :=
  x / TRACKER_REGION_SIZE = base_addr / TRACKER_REGION_SIZE ∧
    mask.get (x % TRACKER_REGION_SIZE / TRACKER_PAGE_SIZE) = true

instance (base_addr : ℕ) (mask : RegionBits) (x : ℕ) : Decidable (OnMask base_addr mask x) :=
  inferInstanceAs (Decidable (_ ∧ _))

theorem pages_iff (hlast : last ≤ 1024) (x : ℕ) :
    (region * 4194304 + first * 4096 ≤ x ∧ x < region * 4194304 + last * 4096) ↔
      x / 4194304 = region ∧ first ≤ x % 4194304 / 4096 ∧ x % 4194304 / 4096 < last := by
  constructor
  · intro hx
    have hregion : x / 4194304 = region := by omega
    exact ⟨hregion, by omega, by omega⟩
  · rintro ⟨hregion, h1, h2⟩
    exact ⟨by omega, by omega⟩

theorem onRange_single (hlt : mask.firstRange.1 < mask.lastRange.2) (hle : mask.lastRange.2 ≤ 1024)
    (hsingle : mask.firstRange.2 = mask.lastRange.2) (x : ℕ) :
    OnRange (region * 4194304 + mask.firstRange.1 * 4096)
      ((mask.lastRange.2 - mask.firstRange.1) * 4096) x ↔ OnMask (region * 4194304) mask x := by
  have hindex : region * 4194304 / 4194304 = region := Nat.mul_div_cancel region (by decide)
  have hbegin : pageStart (region * 4194304 + mask.firstRange.1 * 4096) =
      region * 4194304 + mask.firstRange.1 * 4096 := by
    show _ - _ % 4096 = _
    omega
  have hend : pageStart (region * 4194304 + mask.firstRange.1 * 4096 +
        (mask.lastRange.2 - mask.firstRange.1) * 4096 - 1) + 4096 =
      region * 4194304 + mask.lastRange.2 * 4096 := by
    obtain ⟨n, hn⟩ : ∃ n, mask.lastRange.2 = mask.firstRange.1 + n + 1 :=
      ⟨mask.lastRange.2 - mask.firstRange.1 - 1, by omega⟩
    have hsize : mask.lastRange.2 - mask.firstRange.1 = n + 1 := by omega
    rw [hsize, hn]
    show _ - _ % 4096 + 4096 = _
    omega
  unfold OnRange OnMask
  rw [hbegin, hend, pages_iff hle, hindex]
  refine and_congr_right fun _ => ?_
  exact (BitArray.get_iff_of_single hsingle (by omega)).symm

/-- **`UpdatePageWatchersForRegion`.** -/
theorem updatePageWatchersForRegion_updated
    (h : m.updatePageWatchersForRegion track is_read base_addr mask = .ok m') :
    ∃ begin_ end_ on, Updated m m' track is_read begin_ end_ on
        (m.updateForRegionCalls track is_read base_addr mask) ∧
      ∀ x, (begin_ ≤ x ∧ x < end_ ∧ on x = true) ↔ OnMask base_addr mask x := by
  unfold updatePageWatchersForRegion at h
  unfold updateForRegionCalls
  split at h
  · nomatch h
  next hbase =>
    dsimp only at h ⊢
    split at h
    · nomatch h
    next hnonempty =>
      obtain ⟨region, rfl, hlt, hle'⟩ := mask_region hbase hnonempty
      have hindex : region * 4194304 / 4194304 = region := Nat.mul_div_cancel region (by decide)
      by_cases hsingle : mask.firstRange.2 = mask.lastRange.2
      · rw [if_pos hsingle] at h
        rw [if_pos hsingle]
        refine ⟨_, _, _, updatePageWatchers_updated h, fun x => ?_⟩
        simp only [and_true]
        exact onRange_single hlt hle' hsingle x
      · rw [if_neg hsingle] at h
        rw [if_neg hsingle]
        cases hregion : m.regionFor track (region * 4194304) with
        | none =>
          rw [hregion] at h
          nomatch h
        | some pages =>
          rw [hregion] at h
          rw [elim_some]
          refine ⟨_, _, _, updateRegion_updated hlt.le hle' (fun x hx =>
            regionFor_page hregion (hx.trans hindex.symm)) h, fun x => ?_⟩
          unfold OnMask
          rw [← and_assoc, pages_iff hle', hindex, and_assoc]
          refine and_congr_right fun _ => ⟨fun hx => hx.2, fun hx => ⟨?_, hx⟩⟩
          exact BitArray.bounds_of_get (by omega) hx

/-! ## One call -/

/-- A page that nobody has watched is as it was made. -/
def Plain : Prop := ∀ x, (m.page x).managed = false → m.page x = {}

/-- What the calls to the page manager have in common. -/
structure Effect (m m' : PageManager) (calls : List ProtectCall) : Prop where
  escape : m'.hot_page_escape = m.hot_page_escape
  host : replay calls m.guest = .ok m'.guest
  plain : m'.Plain
  exact : ∀ call ∈ calls, ∀ x, call.covers x = true →
    call.protection = (m'.page x).perms m.hot_page_escape
  edge : ∀ x, (m'.page x).managed = true →
    ((m.page x).managed = true ∧
      (m'.page x).perms m.hot_page_escape = (m.page x).perms m.hot_page_escape) ∨
    ∃ call ∈ calls, call.covers x = true

@[simp] theorem updated_managed (track is_read : Bool) (page : PageState) :
    (page.updated track is_read).managed = (page.managed || track) := by
  cases is_read <;> rfl

theorem perms_first (hot_page_escape is_read : Bool) :
    (updated true is_read {}).perms hot_page_escape ≠
      perms hot_page_escape {} := by
  cases hot_page_escape <;> cases is_read <;> decide

theorem updated_false_plain (is_read : Bool) : updated false is_read {} = {} := by
  cases is_read <;> rfl

/-- **Updates.** -/
theorem Updated.effect {mask : ℕ → Bool} {calls : List ProtectCall} (hplain : m.Plain)
    (h : Updated m m' track is_read begin_ end_ mask calls) : Effect m m' calls := by
  refine ⟨h.escape, h.host, fun x hx => ?_, fun call hcall x hx => (h.exact call hcall x hx).symm,
    fun x hx => ?_⟩
  · rw [h.pages] at hx ⊢
    split at hx
    next hon =>
      rw [updated_managed, Bool.or_eq_false_iff] at hx
      rw [if_pos hon, hplain x hx.1, hx.2]
      exact updated_false_plain is_read
    next hoff =>
      rw [if_neg hoff]
      exact hplain x hx
  · by_cases hperms : (m'.page x).perms m.hot_page_escape = (m.page x).perms m.hot_page_escape
    · refine .inl ⟨?_, hperms⟩
      by_contra hunmanaged
      -- a page that becomes managed now gets its first watcher
      rw [Bool.not_eq_true] at hunmanaged
      have hpage := h.pages x
      rw [hpage] at hx hperms
      rw [hplain x hunmanaged] at hx hperms
      split at hx
      next hon =>
        rw [if_pos hon] at hperms
        rw [updated_managed, Bool.false_or] at hx
        rw [hx] at hperms
        exact perms_first _ _ hperms
      · nomatch hx
    · exact .inr (h.covered x hperms)

theorem page_congr (m : PageManager) {y : ℕ} (h : x / 4096 = y / 4096) : m.page x = m.page y := by
  unfold page getOrCreateRegion
  rw [(same_place h).1, (same_place h).2]

theorem covers_page {protection : Protection} :
    covers ⟨pageStart vaddr, TRACKER_PAGE_SIZE, protection⟩ x = true ↔
      x / 4096 = vaddr / 4096 := by
  unfold covers
  rw [decide_eq_true_iff]
  exact onPage_iff

theorem Effect.nothing (hplain : m.Plain) : Effect m m [] where
  escape := rfl
  host := rfl
  plain := hplain
  exact _ hcall := nomatch hcall
  edge _ hx := .inl ⟨hx, rfl⟩

theorem restoreProtection_effect (hplain : m.Plain)
    (h : m.restoreProtection vaddr = .ok (result, m')) : Effect m m' (m.restoreCalls vaddr) := by
  unfold restoreProtection at h
  unfold restoreCalls found
  cases hregion : m.findRegion vaddr with
  | none =>
    rw [hregion] at h
    cases h
    exact .nothing hplain
  | some pages =>
    rw [hregion] at h
    rw [map_some, elim_some]
    dsimp only at h ⊢
    have hpage : m.page vaddr = pages (vaddr % TRACKER_REGION_SIZE / TRACKER_PAGE_SIZE) := by
      unfold page getOrCreateRegion
      rw [findRegion_some hregion]
      rfl
    rw [← hpage] at h ⊢
    split at h
    next hunmanaged =>
      rw [hunmanaged, if_neg (by simp)]
      cases h
      exact .nothing hplain
    next hmanaged =>
      rw [if_pos (eq_true_of_ne_false hmanaged)]
      obtain ⟨guest, hprotect, hm⟩ := bind_eq_ok.mp h
      cases hm
      refine ⟨rfl, ?_, hplain, fun call hcall x hx => ?_, fun x hx => .inl ⟨hx, rfl⟩⟩
      · show (Graphics.protect _ _ _ _ >>= pure) = _
        rw [hprotect]
        rfl
      · obtain rfl := mem_singleton.mp hcall
        show _ = (m.page x).perms m.hot_page_escape
        rw [m.page_congr (covers_page.mp hx)]

@[simp] theorem faulted_managed (page : PageState) : (faulted page).managed = page.managed := by
  unfold faulted
  split <;> rfl

theorem perms_faulted {page : PageState}
    (h : ¬ (hot_page_escape = true ∧ (faulted page).faults = 3)) :
    (faulted page).perms hot_page_escape = page.perms hot_page_escape := by
  have hfaults : hot_page_escape = true → ((faulted page).faults ≥ 3 ↔ page.faults ≥ 3) := by
    intro hhot
    have hthird : (faulted page).faults ≠ 3 := fun heq => h ⟨hhot, heq⟩
    unfold faulted at hthird ⊢
    split at hthird
    next hmore =>
      rw [if_pos hmore]
      have hthird' : page.faults + 1 ≠ 3 := hthird
      show page.faults + 1 ≥ 3 ↔ page.faults ≥ 3
      omega
    next hfull =>
      rw [if_neg hfull]
  have hcounts : (faulted page).access_watchers = page.access_watchers ∧
      (faulted page).write_watchers = page.write_watchers := by
    unfold faulted
    split <;> exact ⟨rfl, rfl⟩
  unfold perms
  rw [hcounts.1, hcounts.2]
  congr 1
  exact propext (and_congr_right hfaults)

theorem perms_third {page : PageState} (h : hot_page_escape = true ∧ (faulted page).faults = 3) :
    (faulted page).perms hot_page_escape = .readWrite :=
  if_pos ⟨h.1, h.2.ge⟩

theorem page_update (h : m.regions (vaddr / TRACKER_REGION_SIZE) = some pages) (state : PageState)
    (guest : Option GuestAddressSpace) (x : ℕ) :
    page { m with
      regions := Function.update m.regions (vaddr / TRACKER_REGION_SIZE)
        (some (Function.update pages (vaddr % TRACKER_REGION_SIZE / TRACKER_PAGE_SIZE) state))
      guest } x = if x / 4096 = vaddr / 4096 then state else m.page x := by
  have hsame : x / 4096 = vaddr / 4096 ↔ x / TRACKER_REGION_SIZE = vaddr / TRACKER_REGION_SIZE ∧
      x % TRACKER_REGION_SIZE / TRACKER_PAGE_SIZE =
        vaddr % TRACKER_REGION_SIZE / TRACKER_PAGE_SIZE := by
    show _ ↔ x / 4194304 = vaddr / 4194304 ∧ x % 4194304 / 4096 = vaddr % 4194304 / 4096
    omega
  unfold page getOrCreateRegion
  dsimp only
  by_cases hregion : x / TRACKER_REGION_SIZE = vaddr / TRACKER_REGION_SIZE
  · rw [hregion, Function.update_self, getD_some]
    by_cases hindex : x % TRACKER_REGION_SIZE / TRACKER_PAGE_SIZE =
        vaddr % TRACKER_REGION_SIZE / TRACKER_PAGE_SIZE
    · rw [if_pos (hsame.mpr ⟨hregion, hindex⟩), hindex, Function.update_self]
    · rw [if_neg fun hc => hindex (hsame.mp hc).2, Function.update_of_ne hindex, h]
      rfl
  · rw [if_neg fun hc => hregion (hsame.mp hc).1, Function.update_of_ne hregion]

theorem faulted_effect (hplain : m.Plain)
    {calls : List ProtectCall} (hmanaged : (m.page vaddr).managed = true)
    (hescape : m'.hot_page_escape = m.hot_page_escape) (hhost : replay calls m.guest = .ok m'.guest)
    (hcalls : calls = if m.hot_page_escape = true ∧ (faulted (m.page vaddr)).faults = 3 then
      [⟨pageStart vaddr, TRACKER_PAGE_SIZE, .readWrite⟩] else []) (hnew : ∀ x, m'.page x =
      if x / 4096 = vaddr / 4096 then faulted (m.page vaddr) else m.page x) :
    Effect m m' calls := by
  refine ⟨hescape, hhost, fun x hx => ?_, fun call hcall x hx => ?_, fun x hx => ?_⟩
  · rw [hnew] at hx ⊢
    by_cases hsame : x / 4096 = vaddr / 4096
    · rw [if_pos hsame, faulted_managed, hmanaged] at hx
      nomatch hx
    · rw [if_neg hsame] at hx ⊢
      exact hplain x hx
  · rw [hcalls] at hcall
    split at hcall
    next hthird =>
      obtain rfl := mem_singleton.mp hcall
      rw [hnew, if_pos (covers_page.mp hx), perms_third hthird]
    · nomatch hcall
  · rw [hnew] at hx ⊢
    by_cases hsame : x / 4096 = vaddr / 4096
    · rw [if_pos hsame, m.page_congr hsame]
      by_cases hthird : m.hot_page_escape = true ∧ (faulted (m.page vaddr)).faults = 3
      · refine .inr ⟨⟨pageStart vaddr, TRACKER_PAGE_SIZE, .readWrite⟩, ?_, covers_page.mpr hsame⟩
        rw [hcalls, if_pos hthird]
        exact mem_singleton.mpr rfl
      · exact .inl ⟨hmanaged, perms_faulted hthird⟩
    · rw [if_neg hsame] at hx ⊢
      exact .inl ⟨hx, rfl⟩

/-- **`NoteFault`** does nothing, or counts a fault of the page, which opens it at the third. -/
theorem noteFault_cases (h : m.noteFault vaddr = .ok (result, m')) :
    m' = m ∧ m.noteFaultCalls vaddr = [] ∨
    (m.page vaddr).managed = true ∧ m'.hot_page_escape = m.hot_page_escape ∧
      replay (m.noteFaultCalls vaddr) m.guest = .ok m'.guest ∧
      (m.noteFaultCalls vaddr = if m.hot_page_escape = true ∧ (faulted (m.page vaddr)).faults = 3
        then [⟨pageStart vaddr, TRACKER_PAGE_SIZE, .readWrite⟩] else []) ∧
      ∀ x, m'.page x = if x / 4096 = vaddr / 4096 then faulted (m.page vaddr) else m.page x := by
  unfold noteFault at h
  unfold noteFaultCalls found
  cases hregion : m.findRegion vaddr with
  | none =>
    rw [hregion] at h
    obtain ⟨-, rfl⟩ := Prod.mk.inj (Except.ok.inj h)
    exact .inl ⟨rfl, rfl⟩
  | some pages =>
    rw [hregion] at h
    rw [map_some, elim_some]
    dsimp only at h ⊢
    have hpages := findRegion_some hregion
    have hpage : m.page vaddr = pages (vaddr % TRACKER_REGION_SIZE / TRACKER_PAGE_SIZE) := by
      unfold page getOrCreateRegion
      rw [hpages]
      rfl
    rw [← hpage] at h ⊢
    by_cases hmanaged : (m.page vaddr).managed = true
    · rw [if_neg (by simp [hmanaged])] at h
      simp only [hmanaged, true_and]
      change (if m.hot_page_escape = true ∧ (faulted (m.page vaddr)).faults = 3 then _ else _) =
        _ at h
      by_cases hthird : m.hot_page_escape = true ∧ (faulted (m.page vaddr)).faults = 3
      · rw [if_pos hthird] at h
        obtain ⟨guest, hprotect, hm⟩ := bind_eq_ok.mp h
        obtain ⟨-, rfl⟩ := Prod.mk.inj (Except.ok.inj hm)
        refine .inr ⟨rfl, ?_, page_update hpages _ guest⟩
        rw [if_pos hthird]
        show (Graphics.protect _ _ _ _ >>= pure) = _
        rw [hprotect]
        rfl
      · rw [if_neg hthird] at h
        obtain ⟨-, rfl⟩ := Prod.mk.inj (Except.ok.inj h)
        refine .inr ⟨rfl, ?_, page_update hpages _ m.guest⟩
        rw [if_neg hthird]
        rfl
    · rw [if_pos (by simpa using hmanaged)] at h
      rw [if_neg fun hc => hmanaged hc.1]
      obtain ⟨-, rfl⟩ := Prod.mk.inj (Except.ok.inj h)
      exact .inl ⟨rfl, rfl⟩

theorem noteFault_effect (hplain : m.Plain)
    (h : m.noteFault vaddr = .ok (result, m')) : Effect m m' (m.noteFaultCalls vaddr) := by
  rcases noteFault_cases h with ⟨rfl, hcalls⟩ | ⟨hmanaged, hescape, hhost, hcalls, hnew⟩
  · rw [hcalls]
    exact .nothing hplain
  · exact faulted_effect hplain hmanaged hescape hhost hcalls hnew

/-! ## Runs -/

/-- The calls to the page manager. -/
inductive Op
  /-- `UpdatePageWatchers<track, is_read>` -/
  | update (track is_read : Bool) (vaddr size : ℕ)
  /-- `UpdatePageWatchersForRegion<track, is_read>` -/
  | updateForRegion (track is_read : Bool) (base_addr : ℕ) (mask : RegionBits)
  | noteFault (vaddr : ℕ)
  | restoreProtection (vaddr : ℕ)

/-- One call. -/
def step : Op → Except Abort PageManager
  | .update track is_read vaddr size => m.updatePageWatchers track is_read vaddr size
  | .updateForRegion track is_read base_addr mask =>
    m.updatePageWatchersForRegion track is_read base_addr mask
  | .noteFault vaddr => (m.noteFault vaddr).map Prod.snd
  | .restoreProtection vaddr => (m.restoreProtection vaddr).map Prod.snd

/-- The calls to the host that one call makes. -/
def calls : Op → List ProtectCall
  | .update track is_read vaddr size => m.updateCalls track is_read vaddr size
  | .updateForRegion track is_read base_addr mask =>
    m.updateForRegionCalls track is_read base_addr mask
  | .noteFault vaddr => m.noteFaultCalls vaddr
  | .restoreProtection vaddr => m.restoreCalls vaddr

/-- The calls one after the other, with a log of the calls to the host. -/
def run : List Op → PageManager × List ProtectCall → Except Abort (PageManager × List ProtectCall)
  | [], s => .ok s
  | op :: ops, (m, log) => do
      let m' ← m.step op
      run ops (m', log ++ m.calls op)

/-- The page manager before the first call. -/
def start (hot_page_escape : Bool) (guest : Option GuestAddressSpace) : PageManager :=
  { hot_page_escape, regions := fun _ => none, guest }

/-- **One call.** -/
theorem step_effect (hplain : m.Plain) {op : Op} (h : m.step op = .ok m') :
    Effect m m' (m.calls op) := by
  cases op with
  | update track is_read vaddr size => exact (updatePageWatchers_updated h).effect hplain
  | updateForRegion track is_read base_addr mask =>
    obtain ⟨_, _, _, hupdated, -⟩ := updatePageWatchersForRegion_updated h
    exact hupdated.effect hplain
  | noteFault vaddr =>
    obtain ⟨_, hfault⟩ := snd_of_map h
    exact noteFault_effect hplain hfault
  | restoreProtection vaddr =>
    obtain ⟨_, hrestore⟩ := snd_of_map h
    exact restoreProtection_effect hplain hrestore

/-- The protection that the last call for a page had. -/
abbrev lastProtection (log : List ProtectCall) (x : ℕ) : Option Protection :=
  lastWrite ProtectCall.covers ProtectCall.protection log x

/-- What holds between the calls. -/
structure Followed (m : PageManager) (log : List ProtectCall) : Prop where
  plain : m.Plain
  settled : ∀ x, (m.page x).managed = true →
    lastProtection log x = some ((m.page x).perms m.hot_page_escape)

theorem Followed.step (h : m.Followed log)
    {calls : List ProtectCall} (heffect : Effect m m' calls) : m'.Followed (log ++ calls) := by
  refine ⟨heffect.plain, ?_⟩
  rw [heffect.escape]
  have hbefore : Settled covers protection
      (fun x => (m.page x).managed = true) (fun x => (m.page x).perms m.hot_page_escape) log :=
    h.settled
  exact hbefore.append heffect.exact heffect.edge

/-- **Runs.** -/
theorem run_followed (ops : List Op)
    (h : m.Followed log) (hrun : run ops (m, log) = .ok (m', log')) :
    m'.Followed log' ∧ m'.hot_page_escape = m.hot_page_escape ∧
      ∃ calls, log' = log ++ calls ∧ replay calls m.guest = .ok m'.guest := by
  induction ops generalizing m log with
  | nil =>
    obtain ⟨rfl, rfl⟩ := Prod.mk.inj (Except.ok.inj hrun)
    exact ⟨h, rfl, [], (append_nil log).symm, rfl⟩
  | cons op ops ih =>
    obtain ⟨m₁, hstep, hrest⟩ := bind_eq_ok.mp hrun
    have heffect := step_effect h.plain hstep
    obtain ⟨hfollowed, hescape, calls, rfl, hreplay⟩ := ih (h.step heffect) hrest
    refine ⟨hfollowed, hescape.trans heffect.escape, m.calls op ++ calls, ?_, ?_⟩
    · rw [append_assoc]
    · rw [replay_append heffect.host]
      exact hreplay

theorem followed_start (hot_page_escape : Bool) (guest : Option GuestAddressSpace) :
    (start hot_page_escape guest).Followed [] := by
  refine ⟨fun x _ => rfl, fun x hx => ?_⟩
  nomatch (show false = true from hx)

theorem ranges_pages (ranges : List (ℕ × ℕ))
    (h : run (ranges.map fun r => .update track is_read r.1 r.2) (m, log) = .ok (m', log'))
    (x : ℕ) :
    m'.page x = (updated track is_read)^[ranges.countP fun r => OnRange r.1 r.2 x]
      (m.page x) := by
  induction ranges generalizing m log with
  | nil =>
    obtain ⟨rfl, -⟩ := Prod.mk.inj (Except.ok.inj h)
    rfl
  | cons r ranges ih =>
    obtain ⟨m₁, hstep, hrest⟩ := bind_eq_ok.mp h
    rw [ih hrest, (updatePageWatchers_updated hstep).pages, countP_cons]
    by_cases hx : OnRange r.1 r.2 x
    · rw [if_pos ⟨hx.1, hx.2, rfl⟩, if_pos (decide_eq_true hx), Function.iterate_succ_apply]
    · rw [if_neg fun hc => hx ⟨hc.1, hc.2.1⟩, if_neg (by simp [hx]), Nat.add_zero]

/-- **The masked and the contiguous update** do the same to the pages. -/
theorem mask_pages {ranges : List (ℕ × ℕ)} {log1 log2 : List ProtectCall}
    (h1 : run [.updateForRegion track is_read base_addr mask] (m, log) = .ok (m₁, log1))
    (h2 : run (ranges.map fun r => .update track is_read r.1 r.2) (m, log) = .ok (m₂, log2))
    (hsame : ∀ x, (ranges.countP fun r => OnRange r.1 r.2 x) =
      if OnMask base_addr mask x then 1 else 0) (x : ℕ) : m₁.page x = m₂.page x := by
  obtain ⟨m', hstep, hm⟩ := bind_eq_ok.mp h1
  obtain ⟨rfl, -⟩ := Prod.mk.inj (Except.ok.inj hm)
  obtain ⟨begin_, end_, on, hupdated, hon⟩ := updatePageWatchersForRegion_updated hstep
  rw [ranges_pages ranges h2, hsame, hupdated.pages]
  by_cases hx : OnMask base_addr mask x
  · rw [if_pos hx, if_pos ((hon x).mpr hx)]
    rfl
  · rw [if_neg hx, if_neg fun hc => hx ((hon x).mp hc)]
    rfl

/-- The protection that the watchers of a page prescribe. -/
def prescribed (page : PageState) : Protection :=
  if page.access_watchers ≠ 0 then .noAccess
  else if page.write_watchers ≠ 0 then .readOnly
  else .readWrite

/-- **The last protection of a managed page** is the one its watchers prescribe, or none at
all once the hot-page escape has opened the page. A call to the host covers only pages that
need its protection, and a masked update does the same as updates of ranges that make up
the mask. -/
theorem protection_follows_watchers {hot_page_escape : Bool} {guest : Option GuestAddressSpace}
    {ops : List Op} {m : PageManager} {log : List ProtectCall}
    (hrun : run ops (start hot_page_escape guest, []) = .ok (m, log)) :
    replay log guest = .ok m.guest ∧
    (∀ x, (m.page x).managed = true → lastProtection log x =
      some (if hot_page_escape = true ∧ (m.page x).faults ≥ 3 then .readWrite
        else prescribed (m.page x))) ∧
    (∀ op m', m.step op = .ok m' → ∀ call ∈ m.calls op, ∀ x, call.covers x = true →
      call.protection = if hot_page_escape = true ∧ (m'.page x).faults ≥ 3 then .readWrite
        else prescribed (m'.page x)) ∧
    (∀ track is_read base_addr mask (ranges : List (ℕ × ℕ)) m₁ log₁ m₂ log₂,
      run [.updateForRegion track is_read base_addr mask] (m, log) = .ok (m₁, log₁) →
      run (ranges.map fun r => .update track is_read r.1 r.2) (m, log) = .ok (m₂, log₂) →
      (∀ x, (ranges.countP fun r => OnRange r.1 r.2 x) =
        if OnMask base_addr mask x then 1 else 0) →
      (∀ x, m₁.page x = m₂.page x) ∧
        ∀ x, (m₁.page x).managed = true → lastProtection log₁ x = lastProtection log₂ x) := by
  obtain ⟨hfollowed, hescape, calls, hcalls, hreplay⟩ := run_followed ops (followed_start _ _) hrun
  obtain rfl : log = calls := hcalls
  have hescape' : m.hot_page_escape = hot_page_escape := hescape
  refine ⟨hreplay, fun x hx => ?_, fun op m' hstep call hcall x hx => ?_,
    fun track is_read base_addr mask ranges m₁ log₁ m₂ log₂ h1 h2 hsame => ?_⟩
  · rw [← hescape']
    exact hfollowed.settled x hx
  · rw [← hescape']
    exact (step_effect hfollowed.plain hstep).exact call hcall x hx
  · have hpages := mask_pages h1 h2 hsame
    refine ⟨hpages, fun x hx => ?_⟩
    obtain ⟨hfollowed1, hescape1, -⟩ := run_followed _ hfollowed h1
    obtain ⟨hfollowed2, hescape2, -⟩ := run_followed _ hfollowed h2
    rw [hfollowed1.settled x hx]
    rw [hpages x] at hx ⊢
    rw [hfollowed2.settled x hx, hescape1, hescape2]

theorem run_of_toOption {β : Type} {x : Except Abort (PageManager × List ProtectCall)}
    {f : PageManager × List ProtectCall → β} {b : β} (h : x.toOption.map f = some b) :
    ∃ m log, x = .ok (m, log) ∧ f (m, log) = b := by
  cases x with
  | error e => exact absurd h (by simp [Except.toOption])
  | ok s => exact ⟨s.1, s.2, rfl, some.inj h⟩

/-- Pages 16 and 18 of a region. -/
def twoPages : RegionBits := (BitArray.clear.set 16).set 18

/-- Two pages get a watcher each with a call of their own, and lose it with one call, which
also covers the page between them: this one needs no protection either. -/
theorem protection_follows_watchers_two :
    ∃ m log, run [.updateForRegion true false 0 twoPages, .updateForRegion false false 0 twoPages]
        (start false (some TrackedMemory.oneRange), []) = .ok (m, log) ∧
      log = [⟨0x10000, 0x1000, .readOnly⟩, ⟨0x12000, 0x1000, .readOnly⟩,
        ⟨0x10000, 0x3000, .readWrite⟩] ∧
      ∀ x, (m.page x).managed = true → lastProtection log x = some (prescribed (m.page x)) := by
  have hlog : (run [.updateForRegion true false 0 twoPages,
      .updateForRegion false false 0 twoPages]
      (start false (some TrackedMemory.oneRange), [])).toOption.map Prod.snd =
      some [⟨0x10000, 0x1000, .readOnly⟩, ⟨0x12000, 0x1000, .readOnly⟩,
        ⟨0x10000, 0x3000, .readWrite⟩] := by
    decide +kernel
  obtain ⟨m, log, hrun, hvalue⟩ := run_of_toOption hlog
  refine ⟨m, log, hrun, hvalue, fun x hx => ?_⟩
  rw [(protection_follows_watchers hrun).2.1 x hx, if_neg (by simp)]

/-- The hot-page escape opens a page after its third fault, though it has a watcher. -/
theorem hot_page_unprotected :
    ∃ m log, run [.update true false 0x10000 0x1000, .noteFault 0x10000, .noteFault 0x10000,
        .noteFault 0x10000] (start true (some TrackedMemory.oneRange), []) = .ok (m, log) ∧
      (m.page 0x10000).managed = true ∧
      lastProtection log 0x10000 ≠ some (prescribed (m.page 0x10000)) := by
  have hfacts : (run [.update true false 0x10000 0x1000, .noteFault 0x10000, .noteFault 0x10000,
      .noteFault 0x10000] (start true (some TrackedMemory.oneRange), [])).toOption.map
      (fun s => ((s.1.page 0x10000).managed, lastProtection s.2 0x10000,
        prescribed (s.1.page 0x10000))) = some (true, some .readWrite, .readOnly) := by
    decide +kernel
  obtain ⟨m, log, hrun, hvalues⟩ := run_of_toOption hfacts
  obtain ⟨hmanaged, hrest⟩ := Prod.mk.inj hvalues
  obtain ⟨hlast, hprescribed⟩ := Prod.mk.inj hrest
  refine ⟨m, log, hrun, hmanaged, ?_⟩
  rw [hlast, hprescribed]
  decide

end MagnusPS5.Graphics.PageManager
