/-
Runs of the buffer cache, with the garbage collector.

A collection that takes a buffer with bytes that only the GPU has leaves such bytes without
a buffer, whatever the download buffer has to wait for (`runGarbageCollector_yields`). No
other operation does.
-/
import MagnusPS5.Graphics.BufferCacheSpec

namespace MagnusPS5.Graphics

open Lib
open Spanned (lo hi)
open List MemoryTracker

/-- The downloads lie in the buffer that was collected. -/
def GarbageDownload.Within (g : GarbageDownload) : Prop :=
  ∀ r ∈ g.downloads, g.retire_address ≤ r.address ∧
    r.address + r.size ≤ g.retire_address + g.retire_size

/-- The byte is in the buffer that was collected. -/
def GarbageDownload.Reaches (g : GarbageDownload) (x : ℕ) : Prop :=
  g.retire_address ≤ x ∧ x < g.retire_address + g.retire_size

namespace BufferCache

variable {s s' : BufferCache}

/-! ## The buffers that are collected -/

theorem pairwise_taken {α : Type} {R : α → α → Prop} (hsymm : ∀ {a b}, R a b → R b a)
    {l : List α} (h : l.Pairwise R) (p : α → Bool) (older : α → α → Prop) [DecidableRel older]
    (limit : ℕ) : (((l.filter p).insertionSort older).take limit).Pairwise R ∧
      ∀ b ∈ ((l.filter p).insertionSort older).take limit, b ∈ l := by
  have hperm := perm_insertionSort older (l.filter p)
  constructor
  · have hfiltered : (l.filter p).Pairwise R := h.sublist filter_sublist
    exact (hperm.symm.pairwise hfiltered hsymm).sublist (take_sublist _ _)
  · intro b hb
    have hsorted := (take_sublist _ _).subset hb
    exact filter_sublist.subset (hperm.subset hsorted)

theorem collected_spec (h : Inv s) (device_usage : ℕ) (ties : ℕ → ℕ) :
    Apart (collected device_usage ties s) ∧
      ∀ b ∈ collected device_usage ties s, b ∈ s.m_buffers := by
  unfold collected
  dsimp only
  split
  · exact ⟨.nil, nofun⟩
  · exact pairwise_taken (fun hab => hab.symm) h.ordered.apart _ _ _

/-! ## The copies -/

/-- The copies for a buffer lie in it, and are of bytes that the GPU has modified. -/
def FoundIn (ranges : RangeSet) (retire : CachedBuffer) (copies : List DownloadCopy) : Prop :=
  ∀ c ∈ copies, 0 < c.size ∧ retire.vaddr ≤ c.address ∧
    c.address + c.size ≤ retire.vaddr + retire.size ∧
    ∀ x, c.address ≤ x → x < c.address + c.size → ranges.Has x

theorem mapM_intersections_yields (ranges : RangeSet) (func : List (ℕ × ℕ)) :
    Yields Stops (func.mapM fun r => orInvalidRange (ranges.intersections r.1 r.2)) fun lists =>
      ∀ range ∈ lists.flatten, ∃ r ∈ func, ∃ found,
        ranges.intersections r.1 r.2 = some found ∧ range ∈ found := by
  induction func with
  | nil => exact nofun
  | cons r rest ih =>
    rw [mapM_cons]
    refine (yields_orInvalidRange fun _ h => h).bind fun found hfound => ?_
    refine ih.bind fun lists hlists => yields_pure fun range hrange => ?_
    rcases mem_append.mp hrange with hrange | hrange
    · exact ⟨r, .head _, found, hfound, hrange⟩
    · obtain ⟨q, hq, hmem⟩ := hlists range hrange
      exact ⟨q, .tail _ hq, hmem⟩

theorem garbageCopies_yields (h : Inv s) {retire : CachedBuffer} (hretire : retire ∈ s.m_buffers) :
    Yields Stops (garbageCopies retire s) fun result =>
      result.2 = s ∧ FoundIn s.m_gpu_modified_ranges retire result.1 := by
  refine (yields_lift (isRegionGpuModified_yields PageManager.Refused retire.vaddr
    retire.size s.m_memory_tracker)).bind fun asked hasked => ?_
  obtain ⟨modified, t⟩ := asked
  obtain ⟨rfl, -⟩ := hasked
  refine yields_ite (fun _ => yields_pure ⟨rfl, nofun⟩) fun _ => ?_
  refine (yields_lift_eq (forEachDownloadRange_yields h.tracker noOthers_lt false
    retire.vaddr retire.size)).bind fun reported hreported => ?_
  obtain ⟨preflight, func, t⟩ := reported
  -- a buffer is made of whole pages
  obtain ⟨hpage1, hpage2⟩ := h.pages retire hretire
  unfold CACHING_PAGE_SIZE at hpage1 hpage2
  have hpages : retire.vaddr % TRACKER_PAGE_SIZE = 0 ∧ retire.size % TRACKER_PAGE_SIZE = 0 := by
    unfold TRACKER_PAGE_SIZE
    omega
  obtain ⟨rfl, hinside⟩ :=
    forEachDownloadRange_inside h.tracker hpages.1 hpages.2 hreported.1
  refine (mapM_intersections_yields s.m_gpu_modified_ranges func).bind fun lists hlists =>
    yields_pure ⟨rfl, fun c hc => ?_⟩
  obtain ⟨range, hrange, rfl⟩ := mem_map.mp hc
  obtain ⟨r, hr, found, hfound, hmem⟩ := hlists range hrange
  obtain ⟨hr1, hr2⟩ := hinside r hr
  obtain ⟨h1, h2, h3, h4⟩ := RangeSet.intersections_spec hfound range hmem
  exact ⟨h1, le_trans hr1 h2, le_trans h3 hr2, h4⟩

theorem collectCopies_yields (h : Inv s) (retires : List CachedBuffer)
    (hretires : ∀ retire ∈ retires, retire ∈ s.m_buffers) :
    Yields Stops (collectCopies retires s) fun result => result.2 = s ∧
      result.1.map Prod.fst = retires ∧
      ∀ pair ∈ result.1, FoundIn s.m_gpu_modified_ranges pair.1 pair.2 := by
  induction retires with
  | nil => exact ⟨rfl, rfl, nofun⟩
  | cons retire rest ih =>
    refine (garbageCopies_yields h (hretires retire mem_cons_self)).bind fun first hfirst => ?_
    obtain ⟨rfl, hcopies⟩ := hfirst
    refine (ih fun r hr => hretires r (.tail _ hr)).bind fun others hothers => ?_
    obtain ⟨found, s2⟩ := others
    obtain ⟨rfl, hmap, hfound⟩ := hothers
    refine yields_pure ⟨rfl, congrArg (retire :: ·) hmap, fun pair hpair => ?_⟩
    rcases mem_cons.mp hpair with rfl | hpair
    · exact hcopies
    · exact hfound pair hpair

/-! ## Garbage downloads -/

/-- What deferred operations leave of the state: they take bytes out of the buffers that were
collected, and no others. -/
structure Drained (s s' : BufferCache) : Prop where
  inv : Inv s'
  buffers : s'.m_buffers = s.m_buffers
  pending : ∀ g ∈ s'.m_pending_operations, g ∈ s.m_pending_operations
  kept : ∀ x, s.m_gpu_modified_ranges.Has x →
    (∀ g ∈ s.m_pending_operations, ¬ g.Reaches x) → s'.m_gpu_modified_ranges.Has x

theorem runGarbageDownload_yields (h : Inv s) {g : GarbageDownload} (hg : g.Within) :
    Yields Stops (runGarbageDownload g s) fun s' => Inv s' ∧ s'.m_buffers = s.m_buffers ∧
      s'.m_pending_operations = s.m_pending_operations ∧
      ∀ x, s.m_gpu_modified_ranges.Has x → ¬ g.Reaches x →
        s'.m_gpu_modified_ranges.Has x := by
  refine (subtractDownloads_yields h.ranges g.downloads).bind fun ranges hranges => ?_
  refine (yields_lift (unmarkRegionAsGpuModified_yields h.tracker noOthers_lt true
    g.retire_address g.retire_size)).bind fun t1 ht1 => ?_
  refine (yields_lift (isRegionGpuModified_yields PageManager.Refused
    g.retire_address g.retire_size t1)).bind fun asked hasked => ?_
  obtain ⟨rfl, -⟩ := hasked
  refine (yields_orInvalidRange fun _ _ => trivial).bind fun retained _ => ?_
  refine yields_ite (fun _ => ⟨nofun, nofun⟩) fun _ => ?_
  refine (yields_lift (untrackMemory_yields ht1 noOthers_lt true g.retire_address
    g.retire_size)).bind fun t3 ht3 => yields_pure ?_
  refine ⟨⟨h.ordered, h.proper, h.pages, hranges.1, ht3⟩, rfl, rfl, fun x hx hout => ?_⟩
  refine hranges.2.2 x hx fun r hr hin => hout ?_
  obtain ⟨h1, h2⟩ := hg r hr
  exact ⟨by omega, by omega⟩

theorem runPending_yields (h : Inv s) (hwithin : ∀ g ∈ s.m_pending_operations, g.Within)
    (count : ℕ) : Yields Stops (runPending count s) (Drained s) := by
  induction count generalizing s with
  | zero => exact ⟨h, rfl, fun _ hg => hg, fun _ hx _ => hx⟩
  | succ count ih =>
    unfold runPending
    cases hpending : s.m_pending_operations with
    | nil => exact ⟨h, rfl, fun _ hg => hg, fun _ hx _ => hx⟩
    | cons g rest =>
      rw [hpending] at hwithin
      have hs : Inv { s with m_pending_operations := rest } :=
        ⟨h.ordered, h.proper, h.pages, h.ranges, h.tracker⟩
      refine (runGarbageDownload_yields hs (hwithin g mem_cons_self)).bind fun s1 h1 => ?_
      obtain ⟨hinv, hbuffers, hrest, hkept⟩ := h1
      refine (ih hinv fun g' hg' => ?_).mono fun s2 h2 => ?_
      · rw [hrest] at hg'
        exact hwithin g' (.tail _ hg')
      · refine ⟨h2.inv, h2.buffers.trans hbuffers, fun g' hg' => ?_, fun x hx hout => ?_⟩
        · have hmem := h2.pending g' hg'
          rw [hrest] at hmem
          rw [hpending]
          exact .tail _ hmem
        · rw [hpending] at hout
          refine h2.kept x (hkept x hx (hout g mem_cons_self)) fun g' hg' => ?_
          rw [hrest] at hg'
          exact hout g' (.tail _ hg')

/-- A download is queued: the operations before it may have been run. -/
structure Queued (s : BufferCache) (retire : CachedBuffer) (s' : BufferCache) : Prop where
  inv : Inv s'
  buffers : s'.m_buffers = s.m_buffers
  pending : ∀ g ∈ s'.m_pending_operations, g ∈ s.m_pending_operations ∨
    (g.Within ∧ g.retire_address = retire.vaddr ∧ g.retire_size = retire.size)
  kept : ∀ x, s.m_gpu_modified_ranges.Has x →
    (∀ g ∈ s.m_pending_operations, ¬ g.Reaches x) → s'.m_gpu_modified_ranges.Has x

theorem queueGarbageDownload_yields (h : Inv s) (hwithin : ∀ g ∈ s.m_pending_operations, g.Within)
    (waited : ℕ) {copies : List DownloadCopy} {retire : CachedBuffer}
    (hcopies : FoundIn s.m_gpu_modified_ranges retire copies) :
    Yields Stops (queueGarbageDownload waited copies retire s) fun s' =>
      (copies = [] → s' = s) ∧ Queued s retire s' := by
  refine yields_ite (fun _ => ⟨fun _ => rfl, h, rfl, fun _ hg => .inl hg, fun _ hx _ => hx⟩)
    fun hsome => ?_
  have hne : copies ≠ [] := fun hnil => hsome (by rw [hnil]; rfl)
  -- what is recorded lies where the copies lie
  have hrecorded : Yields Stops (recordDownloads copies waited s) fun result =>
      (∀ r ∈ result.1, retire.vaddr ≤ r.address ∧
        r.address + r.size ≤ retire.vaddr + retire.size) ∧ Drained s result.2 := by
    refine (reservationSize_stops copies).bind fun size _ => ?_
    refine yields_ite (fun _ => yields_pure ⟨nofun, h, rfl, fun _ hg => hg, fun _ hx _ => hx⟩)
      fun _ => ?_
    refine yields_ite (fun _ => ⟨nofun, nofun⟩) fun _ => ?_
    refine (runPending_yields h hwithin waited).bind fun s1 hdrained =>
      yields_pure ⟨fun r hr => ?_, hdrained⟩
    obtain ⟨c, hc, rfl⟩ := mem_map.mp hr
    exact ⟨(hcopies c hc).2.1, (hcopies c hc).2.2.1⟩
  refine hrecorded.bind fun result hresult => yields_pure ⟨fun hnil => absurd hnil hne, ?_⟩
  obtain ⟨hdownloads, hdrained⟩ := hresult
  refine ⟨⟨hdrained.inv.ordered, hdrained.inv.proper, hdrained.inv.pages, hdrained.inv.ranges,
    hdrained.inv.tracker⟩, hdrained.buffers, fun g hg => ?_, hdrained.kept⟩
  rcases mem_append.mp hg with hg | hg
  · exact .inl (hdrained.pending g hg)
  · rw [mem_singleton.mp hg]
    exact .inr ⟨hdownloads, rfl, rfl⟩

/-- Two buffers share no byte. -/
def Clear (a b : CachedBuffer) : Prop := hi a ≤ lo b ∨ hi b ≤ lo a

/-- The deferred operations are about buffers that share no byte with a buffer. -/
def ClearOf (pending : List GarbageDownload) (b : CachedBuffer) : Prop :=
  ∀ g ∈ pending, ∀ x, g.Reaches x → ¬ Covers b x

/-- The loop that queues the downloads. Without copies it does nothing; otherwise bytes of the
buffer that comes last are still in the ranges. -/
theorem queueDownloads_yields (h : Inv s) (waited : ℕ → ℕ)
    (hwithin : ∀ g ∈ s.m_pending_operations, g.Within)
    {found : List (CachedBuffer × List DownloadCopy)}
    (hclear : ∀ pair ∈ found, ClearOf s.m_pending_operations pair.1)
    (hapart : found.Pairwise fun a b => Clear a.1 b.1)
    (hfound : ∀ pair ∈ found, FoundIn s.m_gpu_modified_ranges pair.1 pair.2) :
    Yields Stops (queueDownloads waited found s) fun s' => Inv s' ∧ s'.m_buffers = s.m_buffers ∧
      ((∀ pair ∈ found, pair.2 = []) → s' = s) ∧
      ((∃ pair ∈ found, pair.2 ≠ []) → ∃ pair ∈ found, ∃ x, Covers pair.1 x ∧
        s'.m_gpu_modified_ranges.Has x) := by
  induction found generalizing s with
  | nil => exact ⟨h, rfl, fun _ => rfl, fun ⟨_, hmem, _⟩ => nomatch hmem⟩
  | cons first rest ih =>
    obtain ⟨retire, copies⟩ := first
    obtain ⟨hfirst, hrest⟩ := pairwise_cons.mp hapart
    have hcopies := hfound _ mem_cons_self
    refine (queueGarbageDownload_yields h hwithin (waited retire.vaddr) hcopies).bind
      fun s1 hqueued => ?_
    obtain ⟨hsame, hqueued⟩ := hqueued
    -- bytes of a buffer that shares none with those before it are still there
    have hkept : ∀ pair ∈ (retire, copies) :: rest,
        FoundIn s1.m_gpu_modified_ranges pair.1 pair.2 := by
      intro pair hpair c hc
      obtain ⟨h1, h2, h3, h4⟩ := hfound pair hpair c hc
      refine ⟨h1, h2, h3, fun x hx1 hx2 => hqueued.kept x (h4 x hx1 hx2) fun g hg hgx => ?_⟩
      exact hclear pair hpair g hg x hgx ⟨le_trans h2 hx1, lt_of_lt_of_le hx2 h3⟩
    have hmore := ih hqueued.inv (fun g hg => ?_) (fun pair hpair g hg x hgx hx => ?_) hrest
      fun pair hpair => hkept pair (.tail _ hpair)
    · refine hmore.mono fun s2 h2 => ?_
      obtain ⟨hinv, hbuffers, hnone, hsome⟩ := h2
      refine ⟨hinv, hbuffers.trans hqueued.buffers, fun hall => ?_, fun hany => ?_⟩
      · rw [hnone fun pair hpair => hall pair (.tail _ hpair)]
        exact hsame (hall _ mem_cons_self)
      · by_cases hlater : ∃ pair ∈ rest, pair.2 ≠ []
        · obtain ⟨pair, hpair, hx⟩ := hsome hlater
          exact ⟨pair, .tail _ hpair, hx⟩
        · -- the first buffer is the last one with copies
          have hnil : ∀ pair ∈ rest, pair.2 = [] := by
            intro pair hpair
            by_contra hne
            exact hlater ⟨pair, hpair, hne⟩
          have hne : copies ≠ [] := by
            obtain ⟨pair, hpair, hne⟩ := hany
            rcases mem_cons.mp hpair with rfl | hpair
            · exact hne
            · exact absurd (hnil pair hpair) hne
          obtain ⟨c, hc⟩ := exists_mem_of_ne_nil copies hne
          obtain ⟨h1, h2, h3, h4⟩ := hkept _ mem_cons_self c hc
          rw [hnone hnil]
          refine ⟨_, .head _, c.address, ⟨h2, ?_⟩, h4 _ (le_rfl) (by omega)⟩
          show c.address < retire.vaddr + retire.size
          dsimp only at h3
          omega
    · rcases hqueued.pending g hg with hg | hg
      · exact hwithin g hg
      · exact hg.1
    · rcases hqueued.pending g hg with hg | ⟨-, h1, h2⟩
      · exact hclear pair (.tail _ hpair) g hg x hgx hx
      · obtain ⟨hx1, hx2⟩ := hgx
        dsimp only at h1 h2
        rw [h1] at hx1 hx2
        rw [h2] at hx2
        have hx3 : lo pair.1 ≤ x := hx.1
        have hx4 : x < hi pair.1 := hx.2
        rcases hfirst pair hpair with hgap | hgap
        · change retire.vaddr + retire.size ≤ lo pair.1 at hgap
          omega
        · change hi pair.1 ≤ retire.vaddr at hgap
          omega

/-! ## Erasing -/

theorem eraseCollected_yields (h : Inv s) (retire : CachedBuffer) :
    Yields Stops (eraseCollected s retire) fun s' => Inv s' ∧
      s'.m_gpu_modified_ranges = s.m_gpu_modified_ranges ∧
      s'.m_pending_operations = s.m_pending_operations ∧
      ∀ b, b ∈ s'.m_buffers ↔ b ∈ s.m_buffers ∧ b.vaddr ≠ retire.vaddr := by
  unfold eraseCollected
  split
  · exact ⟨nofun, nofun⟩
  · refine yields_ite (fun _ => ⟨nofun, nofun⟩) fun _ => ?_
    refine (yields_lift (isRegionGpuModified_yields PageManager.Refused retire.vaddr
      retire.size s.m_memory_tracker)).bind fun asked hasked => ?_
    obtain ⟨modified, t⟩ := asked
    obtain ⟨rfl, -⟩ := hasked
    refine .bind (P := MemoryTracker.Coherent noOthers) ?_ fun t ht => ?_
    · exact yields_ite (fun _ => yields_lift (untrackMemory_yields h.tracker
        noOthers_lt true retire.vaddr retire.size)) fun _ => h.tracker
    · refine yields_ite (fun _ => ⟨nofun, nofun⟩) fun _ => yields_pure ?_
      have hsub : List.Sublist (eraseBuffers [retire.vaddr] s.m_buffers) s.m_buffers :=
        filter_sublist
      refine ⟨⟨h.ordered.sublist hsub, fun b hb => h.proper b (hsub.subset hb),
        fun b hb => h.pages b (hsub.subset hb), h.ranges, ht⟩, rfl, rfl, fun b => ?_⟩
      rw [mem_eraseBuffers, mem_singleton]

theorem eraseAll_yields (h : Inv s) (retires : List CachedBuffer) :
    Yields Stops (retires.foldlM eraseCollected s) fun s' => Inv s' ∧
      s'.m_gpu_modified_ranges = s.m_gpu_modified_ranges ∧
      s'.m_pending_operations = s.m_pending_operations ∧
      ∀ b, b ∈ s'.m_buffers ↔ b ∈ s.m_buffers ∧ ∀ retire ∈ retires, b.vaddr ≠ retire.vaddr := by
  induction retires generalizing s with
  | nil => exact ⟨h, rfl, rfl, fun b => ⟨fun hb => ⟨hb, nofun⟩, And.left⟩⟩
  | cons retire rest ih =>
    rw [foldlM_cons]
    refine (eraseCollected_yields h retire).bind fun s1 h1 => ?_
    obtain ⟨hinv, hranges, hpending, hmem⟩ := h1
    refine (ih hinv).mono fun s2 h2 => ?_
    obtain ⟨hinv2, hranges2, hpending2, hmem2⟩ := h2
    refine ⟨hinv2, hranges2.trans hranges, hpending2.trans hpending, fun b => ?_⟩
    rw [hmem2, hmem, forall_mem_cons, and_assoc]

/-! ## The collector -/

/-- No buffer that the collector takes has bytes that the GPU has modified. -/
def CollectsClean (device_usage : ℕ) (ties : ℕ → ℕ) (s : BufferCache) : Prop :=
  ∀ b ∈ collected device_usage ties s, ∀ x, Covers b x → ¬ s.m_gpu_modified_ranges.Has x

/-- **`RunGarbageCollector`** keeps an owner for each byte exactly if it takes clean buffers
only. -/
theorem runGarbageCollector_yields (h : Owned s) (device_usage : ℕ) (ties waited : ℕ → ℕ) :
    Yields Stops (runGarbageCollector device_usage ties waited s) fun s' =>
      (CollectsClean device_usage ties s → Owned s') ∧
      (¬ CollectsClean device_usage ties s →
        ∃ x, s'.m_gpu_modified_ranges.Has x ∧ ¬ Occupied s'.m_buffers x) := by
  obtain ⟨hapart, hmem⟩ := collected_spec h.toInv device_usage ties
  unfold runGarbageCollector CollectsClean
  generalize hretires : collected device_usage ties s = retires at hapart hmem
  have hs : Owned { s with
      m_gc_tick := s.m_gc_tick + 1
      m_total_used_memory := s.usedMemory device_usage } :=
    ⟨⟨h.ordered, h.proper, h.pages, h.ranges, h.tracker⟩, h.owned, h.settled⟩
  refine (collectCopies_yields hs.toInv retires hmem).bind fun collection hcollection => ?_
  obtain ⟨found, s1⟩ := collection
  obtain ⟨hsame, hmap, hfound⟩ := hcollection
  subst hsame
  have hpairs : ∀ pair ∈ found, pair.1 ∈ retires := fun pair hpair =>
    hmap ▸ mem_map_of_mem hpair
  have hclear : found.Pairwise fun a b => Clear a.1 b.1 := by
    rw [← hmap] at hapart
    exact pairwise_map.mp hapart
  have hnone : ∀ g ∈ ([] : List GarbageDownload), g.Within := nofun
  refine (queueDownloads_yields hs.toInv waited (hs.settled.symm ▸ hnone) (fun pair _ => ?_) hclear
    hfound).bind fun s2 hqueued => ?_
  · intro g hg
    rw [hs.settled] at hg
    nomatch hg
  obtain ⟨hinv, hbuffers, hidle, hlast⟩ := hqueued
  refine (eraseAll_yields hinv retires).mono fun s3 herased => ?_
  obtain ⟨hinv3, hranges3, hpending3, hmem3⟩ := herased
  -- a byte of a collected buffer has no other buffer
  have hlost : ∀ b ∈ retires, ∀ x, Covers b x → ¬ Occupied s3.m_buffers x := by
    rintro b hb x hx ⟨c, hc, hcx⟩
    obtain ⟨hc, hkept⟩ := (hmem3 c).mp hc
    rw [hbuffers] at hc
    obtain rfl := h.ordered.apart.eq_of_covers hc (hmem b hb) hcx hx
    exact hkept c hb rfl
  constructor
  · intro hclean
    -- there is nothing to download
    have hempty : ∀ pair ∈ found, pair.2 = [] := by
      intro pair hpair
      by_contra hne
      obtain ⟨c, hc⟩ := exists_mem_of_ne_nil _ hne
      obtain ⟨h1, h2, h3, h4⟩ := hfound pair hpair c hc
      refine hclean pair.1 (hpairs pair hpair) c.address ⟨h2, ?_⟩ (h4 _ (le_rfl) (by omega))
      show c.address < pair.1.vaddr + pair.1.size
      omega
    obtain rfl := hidle hempty
    refine ⟨hinv3, fun x hx => ?_, hpending3.trans h.settled⟩
    rw [hranges3] at hx
    obtain ⟨b, hb, hbx⟩ := h.owned x hx
    refine ⟨b, (hmem3 b).mpr ⟨hb, fun retire hretire heq => ?_⟩, hbx⟩
    obtain rfl := h.ordered.eq_of_lo_eq h.proper (hmem retire hretire) hb heq
    exact hclean b hretire x hbx hx
  · intro hdirty
    by_cases hempty : ∀ pair ∈ found, pair.2 = []
    · -- the bytes of a collected buffer stay in the ranges
      obtain rfl := hidle hempty
      simp only [not_forall, not_not] at hdirty
      obtain ⟨b, hb, x, hbx, hx⟩ := hdirty
      exact ⟨x, by rw [hranges3]; exact hx, hlost b hb x hbx⟩
    · simp only [not_forall] at hempty
      obtain ⟨pair, hpair, hne⟩ := hempty
      obtain ⟨pair, hpair, x, hx, hhas⟩ := hlast ⟨pair, hpair, hne⟩
      exact ⟨x, by rw [hranges3]; exact hhas, hlost pair.1 (hpairs pair hpair) x hx⟩

/-! ## Runs -/

/-- What is asked of every state: a byte that the GPU has modified is in a buffer, a readback
finds it, and a deferred download writes nothing back that is older than what was written
since it was queued. -/
structure Safe (s : BufferCache) : Prop where
  owned : ∀ x, s.m_gpu_modified_ranges.Has x → Occupied s.m_buffers x
  readable : ∀ vaddr size is_write waited,
    s.readMemoryOnGpu vaddr size is_write waited ≠ .error .noBufferOwner
  never_older : ∀ g ∈ s.m_pending_operations, ∀ r ∈ g.downloads, ∀ x, r.address ≤ x →
    x < r.address + r.size → g.queued < s.latest x → s.latest x ≤ r.bytes x

theorem Owned.safe (h : Owned s) : Safe s where
  owned := h.owned
  readable vaddr size is_write waited herror :=
    ((readMemoryOnGpu_yields h vaddr size is_write waited).of_error herror).1 rfl
  never_older g hg := by
    rw [h.settled] at hg
    nomatch hg

/-- The condition on a step. -/
def StepOk (s : BufferCache) : Op → Prop
  | .runGarbageCollector device_usage ties _ => CollectsClean device_usage ties s
  | _ => True

/-- All steps of a run meet the condition. -/
def RunOk (s : BufferCache) : List Op → Prop
  | [] => True
  | op :: ops => ∀ s', step s op = .ok s' → StepOk s op ∧ RunOk s' ops

/-- All states of a run are safe. -/
def SafeRun (s : BufferCache) : List Op → Prop
  | [] => Safe s
  | op :: ops => Safe s ∧ ∀ s', step s op = .ok s' → SafeRun s' ops

theorem SafeRun.last {ops : List Op} (h : SafeRun s ops) (hrun : ops.foldlM step s = .ok s') :
    Safe s' := by
  induction ops generalizing s with
  | nil =>
    cases hrun
    exact h
  | cons op ops ih =>
    rw [foldlM_cons] at hrun
    obtain ⟨s1, hstep, hrun⟩ := bind_eq_ok.mp hrun
    exact ih (h.2 s1 hstep) hrun

theorem step_yields (h : Owned s) (op : Op) :
    Yields Stops (step s op) fun s' => (StepOk s op → Owned s') ∧ (¬ StepOk s op → ¬ Safe s') := by
  have always : ∀ {x : Except CacheAbort BufferCache}, Yields Stops x Owned →
      Yields Stops x fun s' => (True → Owned s') ∧ (¬ True → ¬ Safe s') :=
    fun hx => hx.mono fun _ ho => ⟨fun _ => ho, fun hfalse => absurd trivial hfalse⟩
  cases op with
  | obtainBuffer vaddr size is_written is_read transient =>
    exact always (obtainBuffer_yields h vaddr size is_written is_read transient)
  | gpuWrite vaddr size => exact always (gpuWrite_owned h vaddr size)
  | readMemoryOnGpu vaddr size is_write waited =>
    exact always (readMemoryOnGpu_yields h vaddr size is_write waited)
  | invalidateMemory vaddr size waited =>
    exact always (invalidateMemory_yields h vaddr size waited)
  | cpuWrite vaddr size => exact always (cpuWrite_owned h vaddr size)
  | noteFault vaddr => exact always (noteFault_yields h vaddr)
  | runGarbageCollector device_usage ties waited =>
    refine (runGarbageCollector_yields h device_usage ties waited).mono fun s' hs' => ?_
    refine ⟨hs'.1, fun hdirty hsafe => ?_⟩
    obtain ⟨x, hx, hlost⟩ := hs'.2 hdirty
    exact hlost (hsafe.owned x hx)
  | popPendingOperations count =>
    show Yields Stops (runPending count s) _
    rw [runPending_settled h.settled]
    exact always h

theorem safeRun_iff (h : Owned s) (ops : List Op) : SafeRun s ops ↔ RunOk s ops := by
  induction ops generalizing s with
  | nil => exact iff_of_true h.safe trivial
  | cons op ops ih =>
    refine (and_iff_right h.safe).trans (forall_congr' fun s' => imp_congr_right fun hstep => ?_)
    obtain ⟨hgood, hbad⟩ := (step_yields h op).of_ok hstep
    by_cases hok : StepOk s op
    · rw [ih (hgood hok)]
      exact (and_iff_right hok).symm
    · refine iff_of_false (fun hsafe => hbad hok ?_) fun hrun => hok hrun.1
      cases ops with
      | nil => exact hsafe
      | cons op' ops => exact hsafe.1

/-- The cache at the start of the process. -/
def start (hot_page_escape : Bool) (guest : Option Kernel.GuestAddressSpace) (budget : Option ℕ)
    (download_fits : ℕ → Bool) (memory : ℕ → ℕ) : BufferCache :=
  new ⟨hot_page_escape, fun _ => none, guest⟩ budget download_fits memory

theorem owned_start (hot_page_escape : Bool) (guest : Option Kernel.GuestAddressSpace)
    (budget : Option ℕ) (download_fits : ℕ → Bool) (memory : ℕ → ℕ) :
    Owned (start hot_page_escape guest budget download_fits memory) where
  ordered := .nil
  proper := nofun
  pages := nofun
  ranges := canonical_nil
  tracker := coherent_new fun _ _ _ => ⟨rfl, rfl⟩
  owned x hx := absurd hx (occupied_nil x)
  settled := rfl

/-- **Every byte that the GPU has modified has a buffer in all states of a run, and no deferred
download writes back what is older, exactly if no collection of the run takes a buffer with
such bytes.** -/
theorem owned_run_iff (hot_page_escape : Bool) (guest : Option Kernel.GuestAddressSpace)
    (budget : Option ℕ) (download_fits : ℕ → Bool) (memory : ℕ → ℕ) (ops : List Op) :
    SafeRun (start hot_page_escape guest budget download_fits memory) ops ↔
      RunOk (start hot_page_escape guest budget download_fits memory) ops :=
  safeRun_iff (owned_start hot_page_escape guest budget download_fits memory) ops

/-! ## A collection of a buffer that the GPU has written to -/

/-- A device with a budget of 8 GiB and a download buffer of 32 MiB. -/
def exampleStart : BufferCache :=
  start false (some (.init [] 0 ⟨fun _ => true, fun _ => .unmapped⟩)) (some (2 ^ 33))
    (fun size => size ≤ 2 ^ 25) fun _ => 0

/-- The GPU writes to a buffer, and the collector takes it. -/
def dirtyCollection : List Op :=
  [.obtainBuffer 0x10000 0x100 true false false, .gpuWrite 0x10000 0x100,
    .runGarbageCollector (2 ^ 33) (fun _ => 0) fun _ => 0]

/-- The GPU writes to the same bytes again, before the deferred download. -/
def writeAgain : List Op :=
  [.obtainBuffer 0x10000 0x100 true false false, .gpuWrite 0x10000 0x100]

/-- A readback stops the process for want of an owner. -/
def readbackStops (s : BufferCache) : Bool :=
  match s.readMemoryOnGpu 0x10000 0x1000 false 0 with
  | .error .noBufferOwner => true
  | _ => false

/-- The first deferred download holds an older byte than the one that was written last. -/
def holdsOlder (s : BufferCache) : Bool :=
  s.m_pending_operations.any fun g => g.downloads.any fun r =>
    decide (r.address ≤ 0x10000 ∧ 0x10000 < r.address + r.size ∧ g.queued < s.latest 0x10000 ∧
      r.bytes 0x10000 < s.latest 0x10000)

theorem exists_of_any {x : Except CacheAbort BufferCache} {p : BufferCache → Bool}
    (h : x.toOption.any p = true) : ∃ s, x = .ok s ∧ p s = true := by
  cases x with
  | error e => nomatch h
  | ok s => exact ⟨s, rfl, h⟩

/-- After the collection a byte has no owner, and to read it back stops the process. After the
second write the deferred download would put the older byte into the guest's memory. -/
theorem dirtyCollection_unsafe :
    (∃ s, dirtyCollection.foldlM step exampleStart = .ok s ∧
      s.m_gpu_modified_ranges.Has 0x10000 ∧ ¬ Occupied s.m_buffers 0x10000 ∧
      s.readMemoryOnGpu 0x10000 0x1000 false 0 = .error .noBufferOwner) ∧
    (∃ s, (dirtyCollection ++ writeAgain).foldlM step exampleStart = .ok s ∧
      ∃ g ∈ s.m_pending_operations, ∃ r ∈ g.downloads, r.address ≤ 0x10000 ∧
        0x10000 < r.address + r.size ∧ g.queued < s.latest 0x10000 ∧
        r.bytes 0x10000 < s.latest 0x10000) ∧
    ¬ SafeRun exampleStart dirtyCollection := by
  have hlost : ((dirtyCollection.foldlM step exampleStart).toOption.any fun s =>
      decide (s.m_gpu_modified_ranges.Has 0x10000) && !decide (Occupied s.m_buffers 0x10000) &&
        readbackStops s) = true := by decide +kernel
  have holder : (((dirtyCollection ++ writeAgain).foldlM step exampleStart).toOption.any
      holdsOlder) = true := by decide +kernel
  obtain ⟨s, hs, hlost⟩ := exists_of_any hlost
  rw [Bool.and_eq_true, Bool.and_eq_true, decide_eq_true_eq, Bool.not_eq_true',
    decide_eq_false_iff_not] at hlost
  obtain ⟨⟨hhas, hfree⟩, hstops⟩ := hlost
  refine ⟨⟨s, hs, hhas, hfree, ?_⟩, ?_, ?_⟩
  · unfold readbackStops at hstops
    split at hstops
    · assumption
    · exact nomatch hstops
  · obtain ⟨s', hs', holder⟩ := exists_of_any holder
    obtain ⟨g, hg, holder⟩ := List.any_eq_true.mp holder
    obtain ⟨r, hr, holder⟩ := List.any_eq_true.mp holder
    exact ⟨s', hs', g, hg, r, hr, of_decide_eq_true holder⟩
  · exact fun hsafe => hfree ((hsafe.last hs).owned _ hhas)

end BufferCache

end MagnusPS5.Graphics
