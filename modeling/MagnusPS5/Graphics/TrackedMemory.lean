/-
The guest's `mprotect` and the page manager on the same pages.

Both set the protection of the host: the page manager as the watchers of a page ask,
`KernelMprotect` as the guest asks. `Guarded` says that every mapped address has a
protection that its watchers permit. The updates of the watchers keep it whatever the
guest has set before; `KernelMprotect` keeps it where it asks for no more than the
watchers permit, since it does not look at them.
-/
import MagnusPS5.Graphics.PageProtection

namespace MagnusPS5.Graphics

open Lib Function
open Common (BitArray)
open Kernel (GuestAddressSpace Mode Flags MemoryTables PhysicalMemory FlexibleMemory
  kernelMprotect mprotectRange decodeMemoryProtection)
open Kernel.GuestAddressSpace (MappedWf)

/-! ## The manager -/

variable {vaddr : ℕ}

namespace PageManager

variable (m : PageManager)

/-- The state of the page of an address, if its region exists. -/
def pageAt (x : ℕ) : Option PageState :=
  (m.regions (x / TRACKER_REGION_SIZE)).map fun pages =>
    pages (x % TRACKER_REGION_SIZE / TRACKER_PAGE_SIZE)

variable {i region end_ size x : ℕ}

theorem page_index (region : ℕ) (hi : i < 1024) : (region * 4194304 + i * 4096) / 4194304 = region ∧
      (region * 4194304 + i * 4096) % 4194304 / 4096 = i := by omega

variable {m : PageManager} {pages : ℕ → PageState} {track is_read : Bool}

theorem pageAt_page (h : m.regions region = some pages) (hi : i < 1024) :
    m.pageAt (region * 4194304 + i * 4096) = some (pages i) := by
  have hregion : (region * 4194304 + i * 4096) / TRACKER_REGION_SIZE = region :=
    (page_index region hi).1
  have hindex : (region * 4194304 + i * 4096) % TRACKER_REGION_SIZE / TRACKER_PAGE_SIZE = i :=
    (page_index region hi).2
  unfold pageAt
  rw [hregion, h, hindex]
  rfl

/-- Every mapped address has a protection that its page permits, and no page that is left
unprotected has a watcher. -/
structure Guarded (m : PageManager) : Prop where
  mapped : ∀ space, m.guest = some space → MappedWf space.m_mapped
  safe : ∀ region pages, m.regions region = some pages →
    RegionSafe m.hot_page_escape region pages m.guest
  cool : ∀ region pages, m.regions region = some pages →
    ∀ i, (pages i).Cool m.hot_page_escape

theorem regionSafe_new (hot_page_escape : Bool) (region : ℕ) (guest : Option GuestAddressSpace) :
    RegionSafe hot_page_escape region (fun _ => {}) guest := by
  intro space _ x _ _
  cases hot_page_escape <;> rfl

theorem cool_new (hot_page_escape : Bool) : PageState.Cool hot_page_escape {} :=
  fun _ => ⟨rfl, rfl⟩

theorem regionFor_cases (h : m.regionFor track vaddr = some pages) :
    m.regions (vaddr / TRACKER_REGION_SIZE) = some pages ∨
      m.regions (vaddr / TRACKER_REGION_SIZE) = none ∧ pages = fun _ => {} := by
  unfold regionFor at h
  cases track with
  | true =>
    rw [if_pos rfl] at h
    cases h
    unfold getOrCreateRegion
    cases m.regions (vaddr / TRACKER_REGION_SIZE) with
    | none => exact .inr ⟨rfl, rfl⟩
    | some pages => exact .inl rfl
  | false =>
    rw [if_neg (by simp)] at h
    unfold findRegion at h
    split at h
    · exact .inl h
    · nomatch h

/-- What an update of one region leaves as it is. -/
def Beside (region : ℕ) (m m' : PageManager) : Prop :=
  m'.hot_page_escape = m.hot_page_escape ∧ ∀ k, k ≠ region → m'.regions k = m.regions k

/-- **An update of one region** keeps the pages guarded, if it adds no watcher to a page
that is left unprotected. -/
theorem updateRegion_guarded (h : m.Guarded)
    {first last : ℕ} {mask : ℕ → Bool} (hle : first ≤ last) (hlast : last ≤ 1024)
    (hpages : m.regions region = some pages ∨ m.regions region = none ∧ pages = fun _ => {})
    (hhot : track = true → ∀ i, first ≤ i → i < last → mask i = true →
      ∀ pages, m.regions region = some pages → ¬ (pages i).Hot m.hot_page_escape) :
    Yields (fun _ => True)
      (m.updateRegion track is_read (region * 4194304) first last mask pages) fun m' =>
      m'.Guarded ∧ Beside region m m' := by
  have hsafe : RegionSafe m.hot_page_escape region pages m.guest := by
    rcases hpages with hsome | ⟨-, rfl⟩
    · exact h.safe region pages hsome
    · exact regionSafe_new _ _ _
  have hcool : ∀ i, (pages i).Cool m.hot_page_escape := by
    rcases hpages with hsome | ⟨-, rfl⟩
    · exact h.cool region pages hsome
    · exact fun _ => cool_new _
  have hhot' : track = true → ∀ i, first ≤ i → i < last → mask i = true →
      ¬ (pages i).Hot m.hot_page_escape := by
    intro ht i h1 h2 h3
    rcases hpages with hsome | ⟨-, rfl⟩
    · exact hhot ht i h1 h2 h3 pages hsome
    · exact fun hnew => absurd hnew.2 (show ¬ 0 ≥ 3 by decide)
  have hindex : region * 4194304 / TRACKER_REGION_SIZE = region :=
    Nat.mul_div_cancel region (by decide)
  unfold updateRegion
  rw [hindex]
  refine (updateRegionWatchers_safe hle hlast h.mapped hsafe hcool hhot').bind
    fun result ⟨hsafe', hcool', honly⟩ => yields_pure ⟨⟨?_, ?_, ?_⟩, rfl, fun k hk =>
      update_of_ne hk _ _⟩
  · intro space' hspace'
    obtain ⟨space, hspace, hmapped, -⟩ := honly space' hspace'
    rw [hmapped]
    exact h.mapped space hspace
  · intro k pages' hk
    by_cases hregion : k = region
    · subst hregion
      have hnew : some result.1 = some pages' := (update_self k _ _).symm.trans hk
      cases hnew
      exact hsafe'
    · -- another region is as it was
      have hold : m.regions k = some pages' := (update_of_ne hregion _ _).symm.trans hk
      intro space' hspace' x hx hxk
      obtain ⟨space, hspace, hmapped, hmode⟩ := honly space' hspace'
      rw [hmapped] at hx
      rw [hmode x fun hxr => hregion (hxk.symm.trans hxr)]
      exact h.safe k pages' hold space hspace x hx hxk
  · intro k pages' hk
    by_cases hregion : k = region
    · subst hregion
      have hnew : some result.1 = some pages' := (update_self k _ _).symm.trans hk
      cases hnew
      exact hcool'
    · exact h.cool k pages' ((update_of_ne hregion _ _).symm.trans hk)

/-- The pages from an address up to another may get a watcher. -/
def Trackable (begin_ end_ : ℕ) : Prop :=
  ∀ x, begin_ ≤ x → x < end_ → ∀ page, m.pageAt x = some page → ¬ page.Hot m.hot_page_escape

theorem Trackable.of_beside {m' : PageManager} {begin_ : ℕ}
    (h : m.Trackable begin_ end_) (hm : Beside region m m') {begin' : ℕ} (hle : begin_ ≤ begin')
    (hbegin : begin' < end_ → (region + 1) * 4194304 ≤ begin') : m'.Trackable begin' end_ := by
  intro x h1 h2 page hpage
  have hregion : x / TRACKER_REGION_SIZE ≠ region := by
    intro hx
    have hx' : x / 4194304 = region := hx
    omega
  rw [hm.1]
  unfold pageAt at hpage
  rw [hm.2 _ hregion] at hpage
  exact h x (hle.trans h1) h2 page hpage

/-- **The loop of `UpdatePageWatchers`.** -/
theorem updateChunks_guarded (fuel : ℕ) {chunk_begin : ℕ}
    (h : m.Guarded) (halign : chunk_begin % 4096 = 0) (hend : end_ % 4096 = 0)
    (hhot : track = true → m.Trackable chunk_begin end_) :
    Yields (fun _ => True) (updateChunks track is_read end_ fuel chunk_begin m) fun m' =>
      m'.Guarded ∧ m'.hot_page_escape = m.hot_page_escape := by
  induction fuel generalizing chunk_begin m with
  | zero => exact yields_pure ⟨h, rfl⟩
  | succ fuel ih =>
    refine yields_ite (fun hgo => ?_) fun _ => yields_pure ⟨h, rfl⟩
    cases hregion : m.regionFor track chunk_begin with
    | none => exact trivial
    | some pages =>
      show Yields _ (m.updateRegion track is_read (chunk_begin / 4194304 * 4194304)
        ((chunk_begin - chunk_begin / 4194304 * 4194304) / 4096)
        ((min end_ ((chunk_begin / 4194304 + 1) * 4194304) -
          chunk_begin / 4194304 * 4194304) / 4096) (fun _ => true) pages >>= _) _
      refine (updateRegion_guarded h (Nat.div_le_div_right (by omega)) (by omega)
        ((regionFor_cases hregion).imp id id) ?_).bind fun m' hchanged => ?_
      · -- the pages of the chunk are among those that are asked for
        intro ht i h1 h2 _ pages' hpages'
        refine hhot ht (chunk_begin / 4194304 * 4194304 + i * 4096) (by omega) (by omega) _ ?_
        exact pageAt_page hpages' (by omega)
      · obtain ⟨hm', hbeside⟩ := hchanged
        have halign' : min end_ ((chunk_begin / 4194304 + 1) * 4194304) % 4096 = 0 := by omega
        have hle : chunk_begin ≤ min end_ ((chunk_begin / 4194304 + 1) * 4194304) := by omega
        have hbehind : min end_ ((chunk_begin / 4194304 + 1) * 4194304) < end_ →
            (chunk_begin / 4194304 + 1) * 4194304 ≤
              min end_ ((chunk_begin / 4194304 + 1) * 4194304) := by omega
        exact (ih hm' halign' fun ht => (hhot ht).of_beside hbeside hle hbehind).mono
          fun m'' hm'' => ⟨hm''.1, hm''.2.trans hbeside.1⟩

/-- The pages that a range touches may get a watcher. -/
def TrackableRange (vaddr size : ℕ) : Prop :=
  ∀ x, vaddr / 4096 ≤ x / 4096 → x / 4096 ≤ (vaddr + size - 1) / 4096 →
    ∀ page, m.pageAt x = some page → ¬ page.Hot m.hot_page_escape

/-- **`UpdatePageWatchers`.** -/
theorem updatePageWatchers_guarded (h : m.Guarded)
    (hhot : track = true → m.TrackableRange vaddr size) :
    Yields (fun _ => True) (m.updatePageWatchers track is_read vaddr size) fun m' =>
      m'.Guarded ∧ m'.hot_page_escape = m.hot_page_escape := by
  unfold updatePageWatchers pageEnd validateRange
  split
  · exact trivial
  · have halign : ∀ x, pageStart x % 4096 = 0 ∧ pageStart x ≤ x ∧ x < pageStart x + 4096 := by
      intro x
      show (x - x % 4096) % 4096 = 0 ∧ x - x % 4096 ≤ x ∧ x < x - x % 4096 + 4096
      omega
    show Yields _ (updateChunks track is_read (pageStart (vaddr + size - 1) + 4096) _
      (pageStart vaddr) m) _
    have hstart := halign vaddr
    have hstop := halign (vaddr + size - 1)
    refine updateChunks_guarded _ h hstart.1 (by omega) fun ht x h1 h2 => ?_
    exact hhot ht x (by omega) (by omega)

/-- The pages of a mask may get a watcher. -/
def TrackableMask (base_addr : ℕ) (mask : RegionBits) : Prop :=
  ∀ x, x / 4194304 = base_addr / 4194304 → mask.get (x % 4194304 / 4096) = true →
    ∀ page, m.pageAt x = some page → ¬ page.Hot m.hot_page_escape

/-- The base is the start of a region, and the mask has pages. -/
theorem mask_region {base_addr : ℕ} {mask : RegionBits} {p : Prop}
    (hbase : ¬ (base_addr % 4194304 ≠ 0 ∨ p)) (hnonempty : ¬ mask.firstRange.1 = 1024) :
    ∃ region, base_addr = region * 4194304 ∧
      mask.firstRange.1 < mask.lastRange.2 ∧ mask.lastRange.2 ≤ 1024 := by
  have hzero : base_addr % 4194304 = 0 := not_not.mp fun hne => hbase (.inl hne)
  exact ⟨base_addr / 4194304, by omega,
    BitArray.range_bounds (BitArray.isNone_of_firstRange hnonempty)⟩

/-- **`UpdatePageWatchersForRegion`.** -/
theorem updatePageWatchersForRegion_guarded (h : m.Guarded) {base_addr : ℕ} {mask : RegionBits}
    (hhot : track = true → m.TrackableMask base_addr mask) :
    Yields (fun _ => True) (m.updatePageWatchersForRegion track is_read base_addr mask) fun m' =>
      m'.Guarded ∧ m'.hot_page_escape = m.hot_page_escape := by
  refine yields_ite (fun _ => trivial) fun hbase => ?_
  refine yields_ite (fun _ => trivial) fun hnonempty => ?_
  obtain ⟨region, rfl, hlt, hle'⟩ := mask_region hbase hnonempty
  have hindex : region * 4194304 / 4194304 = region := Nat.mul_div_cancel region (by decide)
  refine yields_ite (fun hsingle => ?_) fun _ => ?_
  · refine updatePageWatchers_guarded h fun ht x h1 h2 page hpage => ?_
    have h1' : (region * 4194304 + mask.firstRange.1 * 4096) / 4096 ≤ x / 4096 := h1
    have h2' : x / 4096 ≤ (region * 4194304 + mask.firstRange.1 * 4096 +
        (mask.lastRange.2 - mask.firstRange.1) * 4096 - 1) / 4096 := h2
    refine hhot ht x (by rw [hindex]; omega) ?_ page hpage
    exact (BitArray.get_iff_of_single hsingle (by omega)).mpr (by omega)
  · cases hregion : m.regionFor track (region * 4194304) with
    | none => exact trivial
    | some pages =>
      have hcases := regionFor_cases hregion
      rw [show region * 4194304 / TRACKER_REGION_SIZE = region from hindex] at hcases
      have hupdate : Yields (fun _ => True)
          (m.updateRegion track is_read (region * 4194304) mask.firstRange.1 mask.lastRange.2
            mask.get pages) fun m' => m'.Guarded ∧ Beside region m m' := by
        apply updateRegion_guarded h hlt.le hle' hcases
        intro ht i _ h2 h3 pages' hpages'
        have hi : i < 1024 := lt_of_lt_of_le h2 hle'
        obtain ⟨hinregion, hpage⟩ := page_index region hi
        refine hhot ht _ (hinregion.trans hindex.symm) ?_ _ (pageAt_page hpages' hi)
        rw [hpage]
        exact h3
      exact hupdate.mono fun m' hm' => ⟨hm'.1, hm'.2.1⟩

/-! ## Protecting a range -/

/-- **A protection that the pages permit** keeps them guarded. -/
theorem Guarded.protect (h : m.Guarded) {space space' : GuestAddressSpace}
    (hspace : m.guest = some space) {mode : Mode} (hstart : vaddr % 4096 = 0)
    (hsize : size % 4096 = 0) (heq : space.protect vaddr size mode = (true, space'))
    (hmode : ∀ x, vaddr ≤ x → x < vaddr + size → Occupied space.m_mapped x →
      ∀ page, m.pageAt x = some page → (page.perms m.hot_page_escape).permits mode = true) :
    Guarded { m with guest := some space' } := by
  obtain ⟨hmapped, hmodes⟩ :=
    GuestAddressSpace.protect_spec (h.mapped space hspace) hstart hsize heq
  refine ⟨fun space1 hspace1 => ?_, fun region pages hpages => ?_, h.cool⟩
  · cases hspace1
    rw [hmapped]
    exact h.mapped space hspace
  · intro space1 hspace1 x hx hregion
    cases hspace1
    rw [hmapped] at hx
    have hpage : m.pageAt x = some (pages (x % 4194304 / 4096)) := by
      unfold pageAt
      rw [show x / TRACKER_REGION_SIZE = region from hregion, hpages]
      rfl
    by_cases hin : vaddr ≤ x ∧ x < vaddr + size
    · rcases (hmodes x).2 hin.1 hin.2 hx with hnow | hnow
      · rw [hnow]
        exact hmode x hin.1 hin.2 hx _ hpage
      · rw [hnow]
        exact permits_noAccess _
    · rw [(hmodes x).1 hin]
      exact h.safe region pages hpages space hspace x hx hregion

theorem onPage_iff :
    (pageStart vaddr ≤ x ∧ x < pageStart vaddr + TRACKER_PAGE_SIZE) ↔ x / 4096 = vaddr / 4096 := by
  show (vaddr - vaddr % 4096 ≤ x ∧ x < vaddr - vaddr % 4096 + 4096) ↔ _
  omega

theorem pageStart_aligned (vaddr : ℕ) : pageStart vaddr % 4096 = 0 := by
  show (vaddr - vaddr % 4096) % 4096 = 0
  omega

theorem same_place {y : ℕ} (h : x / 4096 = y / 4096) :
    x / TRACKER_REGION_SIZE = y / TRACKER_REGION_SIZE ∧
      x % TRACKER_REGION_SIZE / TRACKER_PAGE_SIZE = y % TRACKER_REGION_SIZE / TRACKER_PAGE_SIZE := by
  show x / 4194304 = y / 4194304 ∧ x % 4194304 / 4096 = y % 4194304 / 4096
  omega

theorem pageAt_congr (m : PageManager) {y : ℕ} (h : x / 4096 = y / 4096) :
    m.pageAt x = m.pageAt y := by
  unfold pageAt
  rw [(same_place h).1, (same_place h).2]

theorem findRegion_some
    (h : m.findRegion vaddr = some pages) : m.regions (vaddr / TRACKER_REGION_SIZE) = some pages := by
  unfold findRegion at h
  split at h
  · exact h
  · nomatch h

theorem Guarded.protectPage (h : m.Guarded) {protection : Protection}
    (hperms : ∀ page, m.pageAt vaddr = some page → page.perms m.hot_page_escape = protection) :
    Yields (fun _ => True)
      (Graphics.protect m.guest (pageStart vaddr) TRACKER_PAGE_SIZE protection) fun guest =>
      Guarded { m with guest } := by
  refine (protect_yields_protected _ _ _ _).mono fun guest hguest => ?_
  cases guest with
  | none =>
    exact ⟨fun _ hnone => absurd hnone (by simp), fun _ _ _ _ hnone => absurd hnone (by simp), h.cool⟩
  | some space' =>
    obtain ⟨space, hspace, hprotect⟩ := hguest space' rfl
    refine h.protect hspace (pageStart_aligned vaddr) rfl hprotect fun x h1 h2 _ page hpage => ?_
    rw [pageAt_congr m (onPage_iff.mp ⟨h1, h2⟩)] at hpage
    rw [hperms page hpage]
    exact permits_toMemoryMode protection

theorem restoreProtection_guarded (h : m.Guarded) (vaddr : ℕ) :
    Yields (fun _ => True) (m.restoreProtection vaddr) fun result =>
      result.2.Guarded ∧ result.2.hot_page_escape = m.hot_page_escape := by
  unfold restoreProtection
  cases hregion : m.findRegion vaddr with
  | none => exact yields_pure ⟨h, rfl⟩
  | some pages =>
    refine yields_ite (fun _ => yields_pure ⟨h, rfl⟩) fun _ => ?_
    refine (h.protectPage fun page hpage => ?_).bind fun guest hguest => yields_pure ⟨hguest, rfl⟩
    unfold pageAt at hpage
    rw [findRegion_some hregion] at hpage
    cases hpage
    rfl

theorem Guarded.setPage (h : m.Guarded)
    (hpages : m.regions region = some pages) {index : ℕ} {state : PageState}
    (hcool : state.Cool m.hot_page_escape)
    (hperms : ∀ mode, ((pages index).perms m.hot_page_escape).permits mode = true →
      (state.perms m.hot_page_escape).permits mode = true) :
    Guarded { m with
      regions := update m.regions region (some (update pages index state)) } := by
  have hcases : ∀ k pages', update m.regions region
      (some (update pages index state)) k = some pages' →
      (k = region ∧ pages' = update pages index state) ∨ m.regions k = some pages' := by
    intro k pages' hk
    by_cases hregion : k = region
    · subst hregion
      rw [update_self] at hk
      exact .inl ⟨rfl, (Option.some.inj hk).symm⟩
    · rw [update_of_ne hregion] at hk
      exact .inr hk
  refine ⟨h.mapped, fun k pages' hk => ?_, fun k pages' hk i => ?_⟩
  · rcases hcases k pages' hk with ⟨rfl, rfl⟩ | hold
    · intro space hspace x hx hxk
      have hwas := h.safe k pages hpages space hspace x hx hxk
      by_cases hi : x % 4194304 / 4096 = index
      · rw [hi] at hwas ⊢
        rw [update_self]
        exact hperms _ hwas
      · rw [update_of_ne hi]
        exact hwas
    · exact h.safe k pages' hold
  · rcases hcases k pages' hk with ⟨rfl, rfl⟩ | hold
    · by_cases hi : i = index
      · rw [hi, update_self]
        exact hcool
      · rw [update_of_ne hi]
        exact h.cool k pages hpages i
    · exact h.cool k pages' hold i

/-- The third fault of a page may be noted: it has no watcher, or faults do not count. -/
def MayFault (vaddr : ℕ) : Prop :=
  m.hot_page_escape = true → ∀ page, m.pageAt vaddr = some page → page.managed = true →
    page.faults = 2 → page.access_watchers = 0 ∧ page.write_watchers = 0

/-- **`NoteFault`.** -/
theorem noteFault_guarded (h : m.Guarded) (hfault : m.MayFault vaddr) :
    Yields (fun _ => True) (m.noteFault vaddr) fun result =>
      result.2.Guarded ∧ result.2.hot_page_escape = m.hot_page_escape := by
  unfold noteFault
  cases hregion : m.findRegion vaddr with
  | none => exact yields_pure ⟨h, rfl⟩
  | some pages =>
    refine yields_ite (fun _ => yields_pure ⟨h, rfl⟩) fun hmanaged => ?_
    have hpages := findRegion_some hregion
    have hpage : m.pageAt vaddr = some (pages (vaddr % TRACKER_REGION_SIZE / TRACKER_PAGE_SIZE)) := by
      unfold pageAt
      rw [hpages]
      rfl
    generalize hindex : vaddr % TRACKER_REGION_SIZE / TRACKER_PAGE_SIZE = index at *
    have hcool := h.cool _ _ hpages index
    -- a page that is left unprotected from now on has no watcher
    have hnoted : ∀ state, state = (if (pages index).faults ≠ 255 then
          { pages index with faults := (pages index).faults + 1 } else pages index) →
        state.Cool m.hot_page_escape ∧ ∀ mode,
          ((pages index).perms m.hot_page_escape).permits mode = true →
            (state.perms m.hot_page_escape).permits mode = true := by
      intro state hstate
      have hsame : state.access_watchers = (pages index).access_watchers ∧
          state.write_watchers = (pages index).write_watchers := by
        rw [hstate]
        split <;> exact ⟨rfl, rfl⟩
      have hfaults : state.faults = (pages index).faults ∨
          state.faults = (pages index).faults + 1 := by
        rw [hstate]
        split
        · exact .inr rfl
        · exact .inl rfl
      by_cases hhot : m.hot_page_escape = true ∧ state.faults ≥ 3
      · have hfree : (pages index).access_watchers = 0 ∧ (pages index).write_watchers = 0 := by
          by_cases hwas : (pages index).faults ≥ 3
          · exact hcool ⟨hhot.1, hwas⟩
          · exact hfault hhot.1 _ hpage (eq_true_of_ne_false hmanaged) (by omega)
        refine ⟨fun _ => by rw [hsame.1, hsame.2]; exact hfree, fun mode _ => ?_⟩
        unfold PageState.perms
        rw [if_pos hhot]
        rfl
      · have hwas : ¬ (m.hot_page_escape = true ∧ (pages index).faults ≥ 3) := fun hwas =>
          hhot ⟨hwas.1, by omega⟩
        refine ⟨fun hnow => absurd hnow hhot, fun mode hmode => ?_⟩
        unfold PageState.perms at hmode ⊢
        rw [if_neg hhot, hsame.1, hsame.2]
        rw [if_neg hwas] at hmode
        exact hmode
    generalize hstate : (if (pages index).faults ≠ 255 then
      { pages index with faults := (pages index).faults + 1 } else pages index) = state at hnoted ⊢
    obtain ⟨hcool', hperms⟩ := hnoted state rfl
    have hset := h.setPage hpages hcool' hperms
    by_cases hthird : m.hot_page_escape = true ∧ state.faults = 3
    · rw [if_pos hthird]
      refine (hset.protectPage fun page hnow => ?_).bind fun guest hguest =>
        yields_pure ⟨hguest, rfl⟩
      unfold pageAt at hnow
      dsimp only at hnow
      rw [update_self, Option.map_some, hindex, update_self] at hnow
      cases hnow
      exact if_pos ⟨hthird.1, hthird.2.ge⟩
    · rw [if_neg hthird]
      exact yields_pure ⟨hset, rfl⟩

end PageManager

/-! ## The system -/

/-- The tables of the kernel, and the page manager with the address space. -/
structure TrackedMemory where
  tables : MemoryTables
  pages : PageManager

namespace TrackedMemory

/-- A call of one of the two components. -/
inductive Op
  /-- `UpdatePageWatchers<track>` -/
  | update (track : Bool) (vaddr size : ℕ)
  /-- `UpdatePageWatchersForRegion<track, is_read>` -/
  | updateRegion (track is_read : Bool) (base_addr : ℕ) (mask : RegionBits)
  | noteFault (vaddr : ℕ)
  | restoreProtection (vaddr : ℕ)
  | mprotect (vaddr len : ℕ) (prot : Flags)

variable (s : TrackedMemory)

/-- The page manager after a call, if the call returns. -/
def withPages (called : Except Abort PageManager) : Option TrackedMemory :=
  called.toOption.map fun pages => { s with pages }

/-- One call. -/
def step : Op → Option TrackedMemory
  | .update track vaddr size => s.withPages (s.pages.updatePageWatchers track false vaddr size)
  | .updateRegion track is_read base_addr mask =>
    s.withPages (s.pages.updatePageWatchersForRegion track is_read base_addr mask)
  | .noteFault vaddr => s.withPages ((s.pages.noteFault vaddr).map Prod.snd)
  | .restoreProtection vaddr => s.withPages ((s.pages.restoreProtection vaddr).map Prod.snd)
  | .mprotect vaddr len prot =>
    s.pages.guest.bind fun space =>
      (kernelMprotect s.tables space vaddr len prot).map fun (_, tables, space) =>
        { tables, pages := { s.pages with guest := some space } }

/-- The calls one after the other. -/
def run (s : TrackedMemory) : List Op → Option TrackedMemory
  | [] => some s
  | op :: ops => (s.step op).bind fun s => s.run ops

/-- The page manager before any page is watched. -/
def start (hot_page_escape : Bool) (tables : MemoryTables) (space : GuestAddressSpace) :
    TrackedMemory :=
  { tables, pages := { hot_page_escape, regions := fun _ => none, guest := some space } }

/-- **Tracking holds**: the guest cannot use a page with an access watcher, and cannot
write to a page with a write watcher. -/
def Tracked : Prop :=
  ∀ space, s.pages.guest = some space → ∀ x, Occupied space.m_mapped x →
    ∀ page, s.pages.pageAt x = some page →
      (page.access_watchers ≠ 0 → space.modeAt x = .noAccess) ∧
      (page.write_watchers ≠ 0 → Mode.isWrite (space.modeAt x) = false)

/-- `mprotect` asks on no watched page for more than its watchers permit. -/
def MprotectOk (vaddr len : ℕ) (prot : Flags) : Prop :=
  ∀ aligned_addr aligned_len mode gpu_mode,
    mprotectRange vaddr len = some (aligned_addr, aligned_len) →
    decodeMemoryProtection prot = some (mode, gpu_mode) →
    ∀ space, s.pages.guest = some space → ∀ x, aligned_addr ≤ x → x < aligned_addr + aligned_len →
      Occupied space.m_mapped x → ∀ page, s.pages.pageAt x = some page →
        (page.access_watchers ≠ 0 → mode = .noAccess) ∧
        (page.write_watchers ≠ 0 → Mode.isWrite mode = false)

/-- The call does not take the protection off a watched page. -/
def StepOk : Op → Prop
  | .update track vaddr size => track = true → s.pages.TrackableRange vaddr size
  | .updateRegion track _ base_addr mask => track = true → s.pages.TrackableMask base_addr mask
  | .noteFault vaddr => s.pages.MayFault vaddr
  | .restoreProtection _ => True
  | .mprotect vaddr len prot => s.MprotectOk vaddr len prot

/-- No call of the run takes the protection off a watched page. -/
def RunOk (s : TrackedMemory) : List Op → Prop
  | [] => True
  | op :: ops => s.StepOk op ∧ ∀ s', s.step op = some s' → s'.RunOk ops

theorem permits_iff (page : PageState) (mode : Mode) :
    (page.perms false).permits mode = true ↔
      (page.access_watchers ≠ 0 → mode = .noAccess) ∧
      (page.write_watchers ≠ 0 → Mode.isWrite mode = false) := by
  have hfalse : ¬ (false = true ∧ page.faults ≥ 3) := by simp
  unfold PageState.perms
  rw [if_neg hfalse]
  by_cases haccess : page.access_watchers = 0
  · rw [if_neg (by simp [haccess])]
    by_cases hwrite : page.write_watchers = 0
    · simp [haccess, hwrite, Protection.permits]
    · simp [haccess, hwrite, Protection.permits]
  · rw [if_pos haccess]
    cases mode <;> simp [haccess, Protection.permits, Mode.isWrite]

variable {s s' : TrackedMemory}

theorem tracked_of_guarded (h : s.pages.Guarded) : s.Tracked := by
  intro space hspace x hx page hpage
  obtain ⟨pages, hpages, rfl⟩ := Option.map_eq_some_iff.mp hpage
  have hperms := h.safe _ pages hpages space hspace x hx rfl
  rw [(h.cool _ pages hpages _).perms] at hperms
  exact (permits_iff _ _).mp hperms

theorem guarded_of_yields {called : Except Abort PageManager}
    (h : Yields (fun _ => True) called fun m => m.Guarded)
    (heq : s.withPages called = some s') : s'.pages.Guarded := by
  cases called with
  | error e => exact absurd heq (by simp [withPages, Except.toOption])
  | ok m =>
    cases heq
    exact h

/-- **Step.** -/
theorem step_guarded (h : s.pages.Guarded) {op : Op} (hop : s.StepOk op)
    (heq : s.step op = some s') : s'.pages.Guarded := by
  cases op with
  | update track vaddr size =>
    exact guarded_of_yields ((PageManager.updatePageWatchers_guarded h hop).mono
      fun _ hm => hm.1) heq
  | updateRegion track is_read base_addr mask =>
    exact guarded_of_yields ((PageManager.updatePageWatchersForRegion_guarded h hop).mono
      fun _ hm => hm.1) heq
  | noteFault vaddr =>
    exact guarded_of_yields (yields_map ((PageManager.noteFault_guarded h hop).mono
      fun _ hm => hm.1)) heq
  | restoreProtection vaddr =>
    exact guarded_of_yields (yields_map ((PageManager.restoreProtection_guarded h vaddr).mono
      fun _ hm => hm.1)) heq
  | mprotect vaddr len prot =>
    obtain ⟨space, hspace, hcall⟩ := Option.bind_eq_some_iff.mp heq
    obtain ⟨⟨result, tables, space'⟩, hmprotect, rfl⟩ := Option.map_eq_some_iff.mp hcall
    rcases Kernel.kernelMprotect_cases hmprotect with rfl |
      ⟨aligned_addr, aligned_len, mode, gpu_mode, hrange, hmode, hprotect⟩
    · show PageManager.Guarded { s.pages with guest := some space' }
      rw [← hspace]
      exact h
    · obtain ⟨hstart, hsize⟩ := Kernel.mprotectRange_aligned hrange
      refine h.protect hspace hstart hsize hprotect fun x h1 h2 hx page hpage => ?_
      obtain ⟨pages, hpages, rfl⟩ := Option.map_eq_some_iff.mp hpage
      rw [(h.cool _ pages hpages _).perms]
      exact (permits_iff _ _).mpr
        (hop aligned_addr aligned_len mode gpu_mode hrange hmode space hspace x h1 h2 hx _ hpage)

theorem mprotect_regions {len : ℕ} {prot : Flags}
    (h : s.step (.mprotect vaddr len prot) = some s') : s'.pages.regions = s.pages.regions := by
  obtain ⟨space, -, hcall⟩ := Option.bind_eq_some_iff.mp h
  obtain ⟨result, -, rfl⟩ := Option.map_eq_some_iff.mp hcall
  rfl

theorem guarded_start (hot_page_escape : Bool) (tables : MemoryTables) {space : GuestAddressSpace}
    (h : MappedWf space.m_mapped) : (start hot_page_escape tables space).pages.Guarded := by
  refine ⟨fun space' hspace => ?_, fun _ _ hnone => ?_, fun _ _ hnone => ?_⟩
  · cases hspace
    exact h
  · exact absurd hnone (by simp [start])
  · exact absurd hnone (by simp [start])

theorem run_guarded (h : s.pages.Guarded) {ops : List Op}
    (hops : s.RunOk ops) (heq : s.run ops = some s') : s'.pages.Guarded := by
  induction ops generalizing s with
  | nil =>
    cases heq
    exact h
  | cons op ops ih =>
    obtain ⟨s1, hstep, hrest⟩ := Option.bind_eq_some_iff.mp heq
    exact ih (step_guarded h hops.1 hstep) (hops.2 s1 hstep) hrest

/-- **Tracking over runs**: whatever the two components do in which order, tracking holds
as long as no call takes the protection off a watched page. -/
theorem tracked_run {hot_page_escape : Bool} {tables : MemoryTables} {space : GuestAddressSpace}
    (hmapped : MappedWf space.m_mapped) {ops : List Op}
    (hops : (start hot_page_escape tables space).RunOk ops) {s : TrackedMemory}
    (hrun : (start hot_page_escape tables space).run ops = some s) : s.Tracked :=
  tracked_of_guarded (run_guarded (guarded_start _ _ hmapped) hops hrun)

/-! ## One page -/

/-- A guest with one mapped range. -/
def oneRange : GuestAddressSpace :=
  { m_free := []
    m_mapped := [⟨0x10000, 0x4000, .private_⟩]
    m_owned := [⟨0x10000, 0x4000⟩]
    m_backing :=
      { m_size := 0, m_maps := [],
        host := { outcome := fun _ => true, memory := fun _ => .anonymous .readWrite 0 } } }

def oneRangeTables : MemoryTables :=
  { virtual_ranges := [⟨0x10000, 0x4000, 0, 0x03, 0, .runtime, false, []⟩]
    physical_memory := PhysicalMemory.init 0
    flexible_memory := FlexibleMemory.init 0 }

theorem oneRange_mapped : MappedWf oneRange.m_mapped := by
  refine ⟨List.pairwise_singleton _ _, fun r hr => ?_, fun x hx => ?_⟩
  · obtain rfl := List.mem_singleton.mp hr
    decide
  · obtain ⟨r, hr, hcov⟩ := hx
    obtain rfl := List.mem_singleton.mp hr
    have hlt : x < 0x10000 + 0x4000 := hcov.2
    show x < 18446744073709551615
    omega

/-- A page is watched only after the first call, and the second call takes all access. -/
theorem tracked_run_one :
    ∃ s, (start false oneRangeTables oneRange).run
        [.mprotect 0x10000 0x4000 0x03, .update true 0x10000 0x1000,
          .mprotect 0x10000 0x4000 0, .restoreProtection 0x10000] = some s ∧ s.Tracked := by
  have hrun : ((start false oneRangeTables oneRange).run
      [.mprotect 0x10000 0x4000 0x03, .update true 0x10000 0x1000,
        .mprotect 0x10000 0x4000 0, .restoreProtection 0x10000]).isSome = true := by
    decide +kernel
  obtain ⟨s, hs⟩ := Option.isSome_iff_exists.mp hrun
  refine ⟨s, hs, tracked_run oneRange_mapped ?_ hs⟩
  refine ⟨?_, fun s1 h1 => ⟨fun _ => ?_, fun s2 h2 => ⟨?_, fun s3 h3 =>
    ⟨trivial, fun s4 h4 => trivial⟩⟩⟩⟩
  · intro aligned_addr aligned_len mode gpu_mode _ _ space _ x _ _ _ page hpage
    exact absurd hpage (by simp [start, PageManager.pageAt])
  · -- `mprotect` leaves the page manager without a region
    intro x _ _ page hpage
    unfold PageManager.pageAt at hpage
    rw [mprotect_regions h1] at hpage
    exact absurd hpage (by simp [start])
  · intro aligned_addr aligned_len mode gpu_mode _ hmode space _ x _ _ _ page _
    have hzero : decodeMemoryProtection 0 = some (.noAccess, .noAccess) := by decide
    rw [hzero] at hmode
    cases hmode
    exact ⟨fun _ => rfl, fun _ => rfl⟩

/-- `mprotect` takes the protection off a watched page: the guest may write to it, and the
page manager does not learn of it. -/
theorem mprotect_untracks :
    ∃ s, (start false oneRangeTables oneRange).run
        [.update true 0x10000 0x1000, .mprotect 0x10000 0x4000 0x03] = some s ∧ ¬ s.Tracked := by
  have hrun : ((start false oneRangeTables oneRange).run
      [.update true 0x10000 0x1000, .mprotect 0x10000 0x4000 0x03]).map (fun s =>
        (s.pages.pageAt 0x10000, s.pages.guest.map fun space =>
          (decide (Occupied space.m_mapped 0x10000), space.modeAt 0x10000))) =
      some (some { write_watchers := 1, managed := true }, some (true, .readWrite)) := by
    decide +kernel
  obtain ⟨s, hs, hfacts⟩ := Option.map_eq_some_iff.mp hrun
  obtain ⟨hpage, hguest⟩ := Prod.mk.inj hfacts
  obtain ⟨space, hspace, hspacefacts⟩ := Option.map_eq_some_iff.mp hguest
  obtain ⟨hocc, hmode⟩ := Prod.mk.inj hspacefacts
  refine ⟨s, hs, fun htracked => ?_⟩
  have hno := (htracked space hspace 0x10000 (of_decide_eq_true hocc) _ hpage).2 (by decide)
  rw [hmode] at hno
  exact nomatch hno

end TrackedMemory

end MagnusPS5.Graphics
