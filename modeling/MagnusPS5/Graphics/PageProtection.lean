/-
What `UpdateRegionWatchers` does to the host.

A page is protected as its watchers ask, but only when one of its counts leaves or
reaches zero, and together with the pages around it that ask for the same. `Pend` is the
invariant of the loop: every page of the region is either in the run that is still to be
protected, or already has a protection that its watchers permit.
-/
import MagnusPS5.Graphics.PageManagerSpec
import MagnusPS5.Kernel.Mprotect

namespace MagnusPS5.Graphics

open Lib
open Kernel (GuestAddressSpace Mode)
open Kernel.GuestAddressSpace (MappedWf)
open PageState

/-! ## What watchers permit -/

/-- The mode lets a program write. -/
def Mode.isWrite : Mode → Bool
  | .write | .readWrite | .executeWrite | .executeReadWrite => true
  | .noAccess | .read | .execute | .executeRead => false

/-- The host may have the mode where the page manager asks for the protection. -/
def Protection.permits : Protection → Mode → Bool
  | .noAccess, mode => mode = .noAccess
  | .readOnly, mode => !Mode.isWrite mode
  | .readWrite, _ => true

theorem permits_noAccess (p : Protection) : p.permits .noAccess = true := by
  cases p <;> rfl

theorem permits_toMemoryMode (p : Protection) : p.permits (toMemoryMode p) = true := by
  cases p <;> rfl

/-- The page is one that `g_hot_page_escape` leaves unprotected. -/
def PageState.Hot (hot_page_escape : Bool) (page : PageState) : Prop :=
  hot_page_escape = true ∧ page.faults ≥ 3

/-- A page that is left unprotected has no watchers. -/
def PageState.Cool (hot_page_escape : Bool) (page : PageState) : Prop :=
  page.Hot hot_page_escape → page.access_watchers = 0 ∧ page.write_watchers = 0

variable {hot_page_escape track is_read : Bool} {region k : ℕ} {want : ℕ → Protection}
  {page : PageState} {s : Sweep}

theorem PageState.Cool.perms
    (h : page.Cool hot_page_escape) : page.perms hot_page_escape = page.perms false := by
  have hfalse : ¬ (false = true ∧ page.faults ≥ 3) := by simp
  unfold PageState.perms
  rw [if_neg hfalse]
  by_cases hhot : hot_page_escape = true ∧ page.faults ≥ 3
  · obtain ⟨haccess, hwrite⟩ := h hhot
    rw [if_pos hhot, if_neg (by simp [haccess]), if_neg (by simp [hwrite])]
  · rw [if_neg hhot]

/-- The page with another count. -/
def PageState.withCount (page : PageState) (is_read : Bool) (count : ℕ) : PageState :=
  if is_read then { page with access_watchers := count } else { page with write_watchers := count }

theorem ok_of_ite_error {α : Type} {c : Prop} [Decidable c] {e : Abort} {a b : α}
    (h : (if c then .error e else .ok a : Except Abort α) = .ok b) : ¬ c ∧ b = a := by
  by_cases hc : c
  · rw [if_pos hc] at h
    nomatch h
  · rw [if_neg hc] at h
    exact ⟨hc, (Except.ok.inj h).symm⟩

/-- **`AddDelta`**, where it returns, changes the one count by one. -/
theorem addDelta_ok {page' : PageState} {address new_count : ℕ}
    (h : page.addDelta (if track then 1 else -1) is_read address = .ok (new_count, page')) :
    new_count = changed track (page.count is_read) ∧ page' = page.withCount is_read new_count := by
  -- each of the four cases is one test on the count
  have hcase : ∃ (c : Prop) (_ : Decidable c) (e : Abort),
      page.addDelta (if track then 1 else -1) is_read address =
        if c then .error e else .ok (changed track (page.count is_read),
          page.withCount is_read (changed track (page.count is_read))) := by
    cases track <;> cases is_read
    · exact ⟨page.write_watchers = 0, inferInstance, _, rfl⟩
    · exact ⟨page.access_watchers = 0, inferInstance, _, rfl⟩
    · exact ⟨page.write_watchers = 0x7f, inferInstance, _, rfl⟩
    · exact ⟨page.access_watchers ≠ 0, inferInstance, _, rfl⟩
  obtain ⟨c, hc, e, heq⟩ := hcase
  rw [heq] at h
  obtain ⟨-, hresult⟩ := ok_of_ite_error h
  cases hresult
  exact ⟨rfl, rfl⟩

theorem perms_withCount (page : PageState) (hot_page_escape is_read : Bool) {count : ℕ}
    (h : count = 0 ↔ page.count is_read = 0) :
    (page.withCount is_read count).perms hot_page_escape = page.perms hot_page_escape := by
  cases is_read with
  | true =>
    have h' : count = 0 ↔ page.access_watchers = 0 := h
    simp only [perms, withCount, if_true, ne_eq, h']
  | false =>
    have h' : count = 0 ↔ page.write_watchers = 0 := h
    simp only [perms, withCount, Bool.false_eq_true, if_false, ne_eq, h']

@[simp] theorem withCount_faults (page : PageState) (is_read : Bool) (count : ℕ) :
    (page.withCount is_read count).faults = page.faults := by
  cases is_read <;> rfl

theorem perms_changed (page : PageState) (hot_page_escape track is_read : Bool)
    (h : ¬ ((track = true ∧ changed track (page.count is_read) = 1) ∨
      (track = false ∧ changed track (page.count is_read) = 0))) :
    (page.withCount is_read (changed track (page.count is_read))).perms hot_page_escape =
      page.perms hot_page_escape := by
  apply perms_withCount
  unfold changed at *
  cases track with
  | true =>
    simp only [if_true, true_and] at *
    omega
  | false =>
    simp only [Bool.false_eq_true, if_false, true_and, false_and, false_or] at *
    omega

theorem PageState.Cool.changed (h : page.Cool hot_page_escape)
    (hhot : track = true → ¬ page.Hot hot_page_escape) :
    (page.withCount is_read (Graphics.changed track (page.count is_read))).Cool
      hot_page_escape := by
  intro hnow
  have hwas : page.Hot hot_page_escape := by
    unfold PageState.Hot at hnow ⊢
    rw [withCount_faults] at hnow
    exact hnow
  cases track with
  | true => exact absurd hwas (hhot rfl)
  | false =>
    obtain ⟨haccess, hwrite⟩ := h hwas
    cases is_read with
    | true =>
      refine ⟨?_, hwrite⟩
      show page.access_watchers - 1 = 0
      omega
    | false =>
      refine ⟨haccess, ?_⟩
      show page.write_watchers - 1 = 0
      omega

/-! ## The run that is still to be protected -/

/-- The page is in the run. -/
def InRun (range_begin range_bytes i : ℕ) : Prop :=
  range_bytes ≠ 0 ∧ range_begin * 4096 ≤ i * 4096 ∧ i * 4096 < range_begin * 4096 + range_bytes

/-- The loop is before page `k` of a region. `want` is the protection that each page asks
for; the run may be extended up to the page `next`. -/
structure Pend (region k next : ℕ) (want : ℕ → Protection) (s : Sweep) : Prop where
  whole : s.range_bytes % 4096 = 0
  bound : s.range_bytes ≠ 0 → s.range_begin * 4096 + s.range_bytes ≤ k * 4096
  potential : s.range_bytes ≠ 0 →
    s.range_begin * 4096 + s.potential_range_bytes = next * 4096
  same : s.range_bytes ≠ 0 → ∀ i, s.range_begin ≤ i → i < k → want i = s.perms
  mapped : ∀ space, s.guest = some space → MappedWf space.m_mapped
  safe : ∀ space, s.guest = some space → ∀ x, Occupied space.m_mapped x →
    x / 4194304 = region → ¬ InRun s.range_begin s.range_bytes (x % 4194304 / 4096) →
    (want (x % 4194304 / 4096)).permits (space.modeAt x) = true

/-- Only the pages of one region are different. -/
def OnlyRegion (region : ℕ) (guest guest' : Option GuestAddressSpace) : Prop :=
  ∀ space', guest' = some space' → ∃ space, guest = some space ∧
    space'.m_mapped = space.m_mapped ∧
    ∀ x, x / 4194304 ≠ region → space'.modeAt x = space.modeAt x

theorem OnlyRegion.refl (region : ℕ) (guest : Option GuestAddressSpace) :
    OnlyRegion region guest guest :=
  fun space' h => ⟨space', h, rfl, fun _ _ => rfl⟩

theorem OnlyRegion.trans {guest guest' guest'' : Option GuestAddressSpace}
    (h : OnlyRegion region guest guest') (h' : OnlyRegion region guest' guest'') :
    OnlyRegion region guest guest'' := by
  intro space'' hspace''
  obtain ⟨space', hspace', hmapped', hmode'⟩ := h' space'' hspace''
  obtain ⟨space, hspace, hmapped, hmode⟩ := h space' hspace'
  exact ⟨space, hspace, hmapped'.trans hmapped, fun x hx => (hmode' x hx).trans (hmode x hx)⟩

/-- **`Protect`**, if it returns, has protected the range. -/
theorem protect_yields_protected (guest : Option GuestAddressSpace) (vaddr size : ℕ)
    (protection : Protection) :
    Yields (fun _ => True) (protect guest vaddr size protection) fun guest' =>
      ∀ space', guest' = some space' → ∃ space, guest = some space ∧
        space.protect vaddr size (toMemoryMode protection) = (true, space') := by
  cases guest with
  | none => exact trivial
  | some space =>
    unfold protect
    refine yields_ite (fun hok => yields_ok fun space' hspace' => ?_) fun _ => trivial
    cases hspace'
    exact ⟨space, rfl, Prod.ext hok rfl⟩

/-- **`release_pending`** leaves no run, and every page as it asks. -/
theorem releasePending_pend {next : ℕ} (h : Pend region k next want s) (hk : k ≤ 1024) :
    Yields (fun _ => True) (releasePending (region * 4194304) s) fun s' =>
      (∀ next', Pend region k next' want s') ∧ s'.range_bytes = 0 ∧ s'.perms = s.perms ∧
        s'.pages = s.pages ∧ OnlyRegion region s.guest s'.guest := by
  refine yields_ite (fun hne => ?_) fun heq => ?_
  · have hbound := h.bound hne
    have hwhole := h.whole
    refine (protect_yields_protected _ _ _ _).bind fun guest' hguest' => yields_pure
      ⟨fun next' => ⟨rfl, fun hno => absurd rfl hno, fun hno => absurd rfl hno,
        fun hno => absurd rfl hno, ?_, ?_⟩, rfl, rfl, rfl, ?_⟩
    · intro space' hspace'
      obtain ⟨space, hspace, hprotect⟩ := hguest' space' hspace'
      have hspec := GuestAddressSpace.protect_spec (h.mapped space hspace)
        (by show (region * 4194304 + s.range_begin * 4096) % 4096 = 0; omega) hwhole hprotect
      rw [hspec.1]
      exact h.mapped space hspace
    · intro space' hspace' x hx hregion _
      obtain ⟨space, hspace, hprotect⟩ := hguest' space' hspace'
      obtain ⟨hmapped, hmode⟩ := GuestAddressSpace.protect_spec (h.mapped space hspace)
        (by show (region * 4194304 + s.range_begin * 4096) % 4096 = 0; omega) hwhole hprotect
      rw [hmapped] at hx
      by_cases hin : region * 4194304 + s.range_begin * 4096 ≤ x ∧
          x < region * 4194304 + s.range_begin * 4096 + s.range_bytes
      · -- a page of the run asks for the protection of the run
        rw [h.same hne _ (by omega) (by omega)]
        rcases (hmode x).2 hin.1 hin.2 hx with hnow | hnow
        · rw [hnow]
          exact permits_toMemoryMode s.perms
        · rw [hnow]
          exact permits_noAccess s.perms
      · rw [(hmode x).1 hin]
        exact h.safe space hspace x hx hregion fun hpend => hin (by
          obtain ⟨-, h1, h2⟩ := hpend
          omega)
    · intro space' hspace'
      obtain ⟨space, hspace, hprotect⟩ := hguest' space' hspace'
      obtain ⟨hmapped, hmode⟩ := GuestAddressSpace.protect_spec (h.mapped space hspace)
        (by show (region * 4194304 + s.range_begin * 4096) % 4096 = 0; omega) hwhole hprotect
      refine ⟨space, hspace, hmapped, fun x hx => (hmode x).1 fun hin => hx ?_⟩
      have h2 : x < region * 4194304 + s.range_begin * 4096 + s.range_bytes := hin.2
      omega
  · have hzero : s.range_bytes = 0 := not_not.mp heq
    exact ⟨fun next' => ⟨h.whole, h.bound, fun hno => absurd hzero hno, h.same, h.mapped, h.safe⟩,
      hzero, rfl, rfl, .refl _ _⟩

/-- **Gathering.** The run may be extended over the page, or there is none. -/
theorem gather_pend (h : Pend region k k want s) (hk : k ≤ 1024) (new_perms : Protection) :
    Yields (fun _ => True) (gather (region * 4194304) new_perms s) fun s' =>
      Pend region k (k + 1) want s' ∧ s'.perms = new_perms ∧ s'.pages = s.pages ∧
        OnlyRegion region s.guest s'.guest := by
  refine yields_ite (fun _ => ?_) fun hperms => yields_ite (fun hne => ?_) fun heq => ?_
  · refine (releasePending_pend h hk).bind fun s' ⟨hs, hzero, _, hpages, honly⟩ =>
      yields_pure ⟨?_, rfl, hpages, honly⟩
    have hs' := hs (k + 1)
    exact ⟨hs'.whole, hs'.bound, hs'.potential, fun hno => absurd hzero hno, hs'.mapped, hs'.safe⟩
  · have hpotential := h.potential hne
    refine ⟨⟨h.whole, h.bound, fun _ => ?_, h.same, h.mapped, h.safe⟩, (not_not.mp hperms).symm,
      rfl, .refl _ _⟩
    show s.range_begin * 4096 + (s.potential_range_bytes + 4096) = (k + 1) * 4096
    omega
  · have hzero : s.range_bytes = 0 := not_not.mp heq
    exact ⟨⟨h.whole, h.bound, fun hno => absurd hzero hno, h.same, h.mapped, h.safe⟩,
      (not_not.mp hperms).symm, rfl, .refl _ _⟩

variable {want' : ℕ → Protection}

theorem Pend.skip
    (h : Pend region k (k + 1) want s) (hsame : ∀ i, want' i = want i) (hperms : want k = s.perms) :
    Pend region (k + 1) (k + 1) want' s := by
  obtain rfl : want' = want := funext hsame
  refine ⟨h.whole, fun hne => ?_, h.potential, fun hne i h1 h2 => ?_, h.mapped, h.safe⟩
  · exact (h.bound hne).trans (Nat.mul_le_mul_right 4096 (Nat.le_succ k))
  · by_cases hi : i = k
    · rw [hi, hperms]
    · exact h.same hne i h1 (by omega)

theorem Pend.extend (h : Pend region k (k + 1) want s) (hsame : ∀ i, i ≠ k → want' i = want i)
    (hperms : want' k = s.perms) {range_begin potential_range_bytes : ℕ}
    (hbegin : range_begin = if s.range_bytes = 0 then k else s.range_begin)
    (hbytes : potential_range_bytes = if s.range_bytes = 0 then 4096 else s.potential_range_bytes) :
    Pend region (k + 1) (k + 1) want'
      { s with range_begin, potential_range_bytes, range_bytes := potential_range_bytes } := by
  -- the run goes from its first page up to this one
  have hrun : range_begin * 4096 + potential_range_bytes = (k + 1) * 4096 ∧ range_begin ≤ k := by
    by_cases hzero : s.range_bytes = 0
    · rw [if_pos hzero] at hbegin hbytes
      omega
    · rw [if_neg hzero] at hbegin hbytes
      have hpotential := h.potential hzero
      have hbound := h.bound hzero
      omega
  refine ⟨?_, fun _ => ?_, fun _ => hrun.1, fun _ i h1 h2 => ?_, h.mapped, ?_⟩
  · show potential_range_bytes % 4096 = 0
    omega
  · show range_begin * 4096 + potential_range_bytes ≤ (k + 1) * 4096
    omega
  · have h1' : range_begin ≤ i := h1
    by_cases hi : i = k
    · rw [hi, hperms]
    · rw [hsame i hi]
      by_cases hzero : s.range_bytes = 0
      · rw [if_pos hzero] at hbegin
        omega
      · rw [if_neg hzero] at hbegin
        exact h.same hzero i (by omega) (by omega)
  · intro space hspace x hx hregion hout
    have hin : ∀ i, range_begin * 4096 ≤ i * 4096 → i ≤ k →
        InRun range_begin potential_range_bytes i := fun i h1 h2 =>
      ⟨by omega, h1, by omega⟩
    rw [hsame _ fun hi => hout (hin _ (by omega) (by omega))]
    refine h.safe space hspace x hx hregion fun hpend => hout (hin _ ?_ ?_)
    · rw [if_neg hpend.1] at hbegin
      rw [hbegin]
      exact hpend.2.1
    · have hlt := hpend.2.2
      have hbound := h.bound hpend.1
      omega

variable {mask : ℕ → Bool}

/-- **One page.** -/
theorem updatePage_pend
    (h : Pend region k k (fun i => (s.pages i).perms hot_page_escape) s) (hk : k < 1024)
    (hcool : (s.pages k).Cool hot_page_escape)
    (hhot : track = true → mask k = true → ¬ (s.pages k).Hot hot_page_escape) :
    Yields (fun _ => True)
      (updatePage hot_page_escape track is_read (region * 4194304) mask k s) fun s' =>
      Pend region (k + 1) (k + 1) (fun i => (s'.pages i).perms hot_page_escape) s' ∧
        (∀ i, i ≠ k → s'.pages i = s.pages i) ∧ (s'.pages k).Cool hot_page_escape ∧
        OnlyRegion region s.guest s'.guest := by
  -- the flag `managed` takes no part in the protection
  obtain ⟨page, hpage, hperms, hcool, hhot⟩ : ∃ page : PageState, page = (if track then
        { s.pages k with managed := (s.pages k).managed || mask k } else s.pages k) ∧
      page.perms hot_page_escape = (s.pages k).perms hot_page_escape ∧
      page.Cool hot_page_escape ∧
      (track = true → mask k = true → ¬ page.Hot hot_page_escape) := by
    refine ⟨_, rfl, ?_, ?_, ?_⟩
    · cases track <;> rfl
    · cases track <;> exact hcool
    · cases track <;> exact hhot
  unfold updatePage
  dsimp only
  rw [← hpage]
  have hdelta : Yields (fun _ => True) (page.addDelta
        (if mask k = true then if track = true then 1 else -1 else 0) is_read
        (region * 4194304 + k * TRACKER_PAGE_SIZE)) fun r =>
      r.2.Cool hot_page_escape ∧ (r.2.perms hot_page_escape = page.perms hot_page_escape ∨
        mask k = true ∧ ((track = true ∧ r.1 = 1) ∨ (track = false ∧ r.1 = 0))) := by
    by_cases hmask : mask k = true
    · rw [if_pos hmask]
      generalize hresult : page.addDelta (if track = true then 1 else -1) is_read
        (region * 4194304 + k * TRACKER_PAGE_SIZE) = result
      cases result with
      | error e => exact trivial
      | ok r =>
        obtain ⟨hcount, hnew⟩ := addDelta_ok hresult
        show r.2.Cool hot_page_escape ∧ _
        rw [hnew, hcount]
        refine ⟨hcool.changed fun ht => hhot ht hmask, ?_⟩
        by_cases hedge : (track = true ∧ changed track (page.count is_read) = 1) ∨
            (track = false ∧ changed track (page.count is_read) = 0)
        · exact .inr ⟨hmask, hedge⟩
        · exact .inl (perms_changed page hot_page_escape track is_read hedge)
    · rw [if_neg hmask, addDelta_none]
      exact ⟨hcool, .inl rfl⟩
  refine hdelta.bind fun r ⟨hcool', hchange⟩ => ?_
  obtain ⟨new_count, page'⟩ := r
  have hpend : Pend region k k (fun i => (s.pages i).perms hot_page_escape)
      { s with pages := Function.update s.pages k page' } :=
    ⟨h.whole, h.bound, h.potential, h.same, h.mapped, h.safe⟩
  refine (gather_pend hpend hk.le (page'.perms hot_page_escape)).bind
    fun s' ⟨hs', hnew, hpages, honly⟩ => ?_
  have hother : ∀ i, i ≠ k → s'.pages i = s.pages i := by
    intro i hi
    rw [hpages]
    exact Function.update_of_ne hi _ _
  have hself : s'.pages k = page' := by
    rw [hpages]
    exact Function.update_self _ _ _
  have hwant : ∀ i, i ≠ k →
      (s'.pages i).perms hot_page_escape = (s.pages i).perms hot_page_escape :=
    fun i hi => by rw [hother i hi]
  have hcool'' : (s'.pages k).Cool hot_page_escape := by
    rw [hself]
    exact hcool'
  -- a page whose protection is the old one stays out of the run
  have hskip : page'.perms hot_page_escape = page.perms hot_page_escape →
      Pend region (k + 1) (k + 1) (fun i => (s'.pages i).perms hot_page_escape) s' := by
    intro hsame
    refine hs'.skip (fun i => ?_) ?_
    · by_cases hi : i = k
      · rw [hi, hself, hsame, hperms]
      · exact hwant i hi
    · rw [hnew, hsame, hperms]
  refine yields_ite (fun hmask => yields_pure ⟨hskip ?_, hother, hcool'', honly⟩) fun _ =>
    yields_ite (fun hedge => ?_) fun hno => yields_pure ⟨hskip ?_, hother, hcool'', honly⟩
  · rcases hchange with hsame | ⟨hset, -⟩
    · exact hsame
    · rw [hmask] at hset
      nomatch hset
  · have hextend : ∀ {range_begin potential_range_bytes : ℕ},
        range_begin = (if s'.range_bytes = 0 then k else s'.range_begin) →
        potential_range_bytes = (if s'.range_bytes = 0 then 4096 else s'.potential_range_bytes) →
        Pend region (k + 1) (k + 1) (fun i => (s'.pages i).perms hot_page_escape)
          { s' with range_begin, potential_range_bytes, range_bytes := potential_range_bytes } :=
      fun hbegin hbytes => hs'.extend hwant (by rw [hself, hnew]) hbegin hbytes
    by_cases hzero : s'.range_bytes = 0
    · rw [if_pos hzero]
      exact yields_pure ⟨hextend (if_pos hzero).symm (if_pos hzero).symm, hother, hcool'', honly⟩
    · rw [if_neg hzero]
      exact yields_pure ⟨hextend (if_neg hzero).symm (if_neg hzero).symm, hother, hcool'', honly⟩
  · rcases hchange with hsame | ⟨-, hedge⟩
    · exact hsame
    · by_contra hne
      exact hno ⟨hedge, fun heq => hne heq.symm⟩

/-! ## A region -/

/-- Every mapped address of the region has a protection that its page permits. -/
def RegionSafe (hot_page_escape : Bool) (region : ℕ) (pages : ℕ → PageState)
    (guest : Option GuestAddressSpace) : Prop :=
  ∀ space, guest = some space → ∀ x, Occupied space.m_mapped x → x / 4194304 = region →
    ((pages (x % 4194304 / 4096)).perms hot_page_escape).permits (space.modeAt x) = true

/-- **`UpdateRegionWatchers`** keeps every page of the region as its watchers permit, and
changes no other region. -/
theorem updateRegionWatchers_safe {first last : ℕ}
    {pages : ℕ → PageState} {guest : Option GuestAddressSpace}
    (hle : first ≤ last) (hlast : last ≤ 1024)
    (hmapped : ∀ space, guest = some space → MappedWf space.m_mapped)
    (hsafe : RegionSafe hot_page_escape region pages guest)
    (hcool : ∀ i, (pages i).Cool hot_page_escape)
    (hhot : track = true → ∀ i, first ≤ i → i < last → mask i = true →
      ¬ (pages i).Hot hot_page_escape) :
    Yields (fun _ => True)
      (updateRegionWatchers hot_page_escape track is_read (region * 4194304) first last mask pages
        guest) fun result =>
      RegionSafe hot_page_escape region result.1 result.2 ∧
        (∀ i, (result.1 i).Cool hot_page_escape) ∧ OnlyRegion region guest result.2 := by
  -- the pages that are still to come are the ones of the start
  let Inv : List ℕ → Sweep → Prop := fun rest s =>
    ∃ k, k ≤ last ∧ rest = .range' k (last - k) ∧ first ≤ k ∧
      Pend region k k (fun i => (s.pages i).perms hot_page_escape) s ∧
      (∀ i, (s.pages i).Cool hot_page_escape) ∧ (∀ i, k ≤ i → s.pages i = pages i) ∧
      OnlyRegion region guest s.guest
  have hstart : Inv (.range' first (last - first))
      { pages, guest, perms := (pages first).perms hot_page_escape } :=
    ⟨first, hle, rfl, le_refl _,
      ⟨rfl, fun h => absurd rfl h, fun h => absurd rfl h, fun h => absurd rfl h, hmapped,
        fun space hspace x hx hregion _ => hsafe space hspace x hx hregion⟩,
      hcool, fun _ _ => rfl, .refl _ _⟩
  refine (yields_foldlM hstart ?_).bind ?_
  · rintro i rest s ⟨k, hk, hrest, hfirst, hpend, hcools, hsame, honly⟩
    obtain ⟨n, hn⟩ : ∃ n, last - k = n + 1 := by
      cases hn : last - k with
      | zero =>
        rw [hn] at hrest
        nomatch hrest
      | succ n => exact ⟨n, rfl⟩
    rw [hn, List.range'_succ] at hrest
    cases hrest
    refine (updatePage_pend hpend (by omega) (hcools i) fun ht hm => ?_).mono
      fun s' ⟨hpend', hother, hcool', honly'⟩ => ⟨i + 1, by omega, ?_, by omega, hpend', ?_, ?_,
        honly.trans honly'⟩
    · rw [hsame i (le_refl i)]
      exact hhot ht i hfirst (by omega) hm
    · have hleft : last - (i + 1) = n := by omega
      rw [hleft]
    · intro j
      by_cases hj : j = i
      · rw [hj]
        exact hcool'
      · rw [hother j hj]
        exact hcools j
    · intro j hj
      rw [hother j (by omega)]
      exact hsame j (by omega)
  · rintro s ⟨k, hk, hrest, hfirst, hpend, hcools, -, honly⟩
    refine (releasePending_pend hpend (hk.trans hlast)).bind
      fun s' ⟨hs', hzero, _, hpages, honly'⟩ => yields_pure ⟨?_, ?_, honly.trans honly'⟩
    · intro space hspace x hx hregion
      rw [hpages]
      exact (hs' 0).safe space hspace x hx hregion fun hin => hin.1 hzero
    · rw [hpages]
      exact hcools

end MagnusPS5.Graphics
