/-
`GuestBackingStore` (`memoryAddressSpace.inc`): which guest addresses show which
bytes of the backing file, on Linux.

`m_maps` is an ordered map of views keyed by their address. `Unmap` takes an
interval apart into the parts that lie in one view each, unmaps them one by one,
and maps those already gone again when the host refuses one. A call that runs into
an `EXIT_IF` has no result.

The second half reads the store byte by byte: `unmap_spec` says that a call either
takes exactly its interval away or changes no byte.
-/
import MagnusPS5.Lib.Cut
import MagnusPS5.Lib.Keyed
import MagnusPS5.Lib.Walk
import MagnusPS5.Kernel.Host

namespace MagnusPS5.Kernel

open Lib
open Spanned (lo hi)
open List Option

structure MapEntry where
  vaddr : ℕ
  size : ℕ
  backing_offset : ℕ
  mode : Mode
  deriving DecidableEq

/-- The backing byte that shows at an address of the view, and the view's mode. -/
def MapEntry.attr (e : MapEntry) (x : ℕ) : ℕ × Mode :=
  (e.backing_offset + (x - e.vaddr), e.mode)

instance : Sliced MapEntry (ℕ × Mode) where
  lo e := e.vaddr
  hi e := e.vaddr + e.size
  attr := MapEntry.attr
  slice e s t :=
    { e with vaddr := s, size := t - s, backing_offset := e.backing_offset + (s - e.vaddr) }
  lo_slice _ _ _ := rfl
  hi_slice _ _ _ hse := Nat.add_sub_cancel' hse
  attr_slice e s t x hs hx := by
    have hs' : e.vaddr ≤ s := hs
    unfold MapEntry.attr
    congr 1
    dsimp only
    omega

/-- `GuestBackingStore`, with the host it runs on. -/
structure GuestBackingStore where
  m_size : ℕ
  m_maps : List MapEntry
  host : Host

namespace GuestBackingStore

def rangeOk (b : GuestBackingStore) (backing_offset size : ℕ) : Bool :=
  size ≠ 0 ∧ backing_offset < b.m_size ∧ size ≤ b.m_size - backing_offset

def findContainingUnlocked (b : GuestBackingStore) (vaddr size : ℕ) : Option MapEntry :=
  if size = 0 ∨ UINT64_MAX - vaddr < size then none
  else (floor? b.m_maps vaddr).filter fun entry => vaddr + size ≤ entry.vaddr + entry.size

def mapExistingPlaceholderFixed (b : GuestBackingStore) (vaddr size backing_offset : ℕ)
    (mode : Mode) : Option (Bool × GuestBackingStore) :=
  if b.rangeOk backing_offset size then
    let (mapped, host) := b.host.mapShared vaddr size backing_offset mode
    if mapped then
      (emplace ⟨vaddr, size, backing_offset, mode⟩ b.m_maps).map fun m_maps =>
        (true, { b with m_maps, host })
    else some (false, { b with host })
  else some (false, b)

/-- `UnmapOne`: an interval inside one view is unmapped. The view is erased, and what
is left of it on either side, if that is not empty, entered again. -/
def unmapOne (b : GuestBackingStore) (vaddr size : ℕ) : Option (Bool × GuestBackingStore) :=
  match (floor? b.m_maps vaddr).filter fun entry => vaddr + size ≤ entry.vaddr + entry.size with
  | none => some (false, b)
  | some old =>
    if old.size = 0 then some (false, b)
    else
      let left_size := vaddr - old.vaddr
      let right_addr := vaddr + size
      let old_end := old.vaddr + old.size
      let right_size := old_end - right_addr
      let left := { old with size := left_size }
      let right :=
        { old with
          vaddr := right_addr
          size := right_size
          backing_offset := old.backing_offset + (right_addr - old.vaddr) }
      let (unmapped, host) := b.host.mapAnonymous vaddr size
      if unmapped then
        (carve old left right b.m_maps).map fun m_maps => (true, { b with m_maps, host })
      else some (false, { b with host })

/-- Mapping the removed parts again, the last one first. -/
def remap : List MapEntry → GuestBackingStore → Option GuestBackingStore
  | [], b => some b
  | entry :: removed, b =>
    match b.mapExistingPlaceholderFixed entry.vaddr entry.size entry.backing_offset
        entry.mode with
    | some (true, b) => remap removed b
    | _ => none

/-- The loop of `Unmap` over its targets. -/
def unmapLoop : List MapEntry → List MapEntry → GuestBackingStore →
    Option (Bool × GuestBackingStore)
  | [], _, b => some (true, b)
  | entry :: targets, removed, b =>
    match b.unmapOne entry.vaddr entry.size with
    | none => none
    | some (true, b) => unmapLoop targets (entry :: removed) b
    | some (false, b) => (remap removed b).map fun b => (false, b)

/-- The part of a view that `Unmap` takes as a target. -/
def target (part : MapEntry × ℕ × ℕ) : MapEntry :=
  let (entry, current, part_end) := part
  ⟨current, part_end - current, entry.backing_offset + current - entry.vaddr, entry.mode⟩

def unmap (b : GuestBackingStore) (vaddr size : ℕ) : Option (Bool × GuestBackingStore) :=
  if size = 0 ∨ UINT64_MAX - vaddr < size then some (false, b)
  else
    match walk (fun current => b.findContainingUnlocked current 1) b.m_maps.length vaddr
        (vaddr + size) with
    | none => some (false, b)
    | some parts => unmapLoop (parts.map target) [] b

def contains (b : GuestBackingStore) (vaddr size : ℕ) : Bool :=
  if size = 0 ∨ UINT64_MAX - vaddr < size then false
  else
    (walk (fun current => b.findContainingUnlocked current 1) b.m_maps.length vaddr
      (vaddr + size)).isSome

/-! ## The store byte by byte -/

/-- The backing byte and mode at an address. -/
abbrev byteAt (b : GuestBackingStore) (x : ℕ) : Option (ℕ × Mode) :=
  view MapEntry.attr b.m_maps x

theorem view_entry_ne_none {m_maps : List MapEntry} {x : ℕ} :
    view MapEntry.attr m_maps x ≠ none ↔ Occupied m_maps x := view_ne_none_iff

/-- The invariant of the store. -/
structure Wf (b : GuestBackingStore) : Prop where
  ordered : Ordered b.m_maps
  proper : Proper b.m_maps
  fits : ∀ e ∈ b.m_maps, e.vaddr + e.size ≤ UINT64_MAX

variable {b : GuestBackingStore}

theorem findContainingUnlocked_one (h : Wf b) (x : ℕ) :
    b.findContainingUnlocked x 1 = at? b.m_maps x := by
  unfold findContainingUnlocked
  by_cases hx : UINT64_MAX - x < 1
  · rw [if_pos (.inr hx)]
    symm
    rw [at?_eq_none_iff]
    rintro ⟨e, he, -, hlt⟩
    have h1 := h.fits e he
    have h2 : x < e.vaddr + e.size := hlt
    omega
  · rw [if_neg (by omega), ← h.ordered.floor?_filter h.proper x]
    rfl

theorem sound_findContainingUnlocked (h : Wf b) :
    Sound b.m_maps fun current => b.findContainingUnlocked current 1 := by
  intro x e he
  have hat : at? b.m_maps x = some e := (findContainingUnlocked_one h x).symm.trans he
  exact sound_at? b.m_maps x e hat

variable {vaddr size : ℕ} {b' : GuestBackingStore}

/-- **`Contains`** asks whether a non-empty interval is mapped throughout. -/
theorem contains_iff (h : Wf b) (hspan : vaddr + size ≤ UINT64_MAX) : b.contains vaddr size = true ↔
      size ≠ 0 ∧ ∀ x, vaddr ≤ x → x < vaddr + size → Occupied b.m_maps x := by
  unfold contains
  by_cases hsize : size = 0
  · rw [if_pos (.inl hsize)]
    exact ⟨fun hf => absurd hf (by simp), fun hf => absurd hsize hf.1⟩
  · rw [if_neg (by omega), walk_isSome_iff (sound_findContainingUnlocked h)]
    · simp only [findContainingUnlocked_one h, at?_isSome_iff]
      exact ⟨fun hall => ⟨hsize, hall⟩, fun hall => hall.2⟩
    · intro e x y he hxy hy
      rw [findContainingUnlocked_one h] at he ⊢
      obtain ⟨hmem, hcov⟩ := h.ordered.apart.at?_eq_some_iff.mp he
      rw [h.ordered.apart.at?_eq_some_iff.mpr ⟨hmem, hcov.1.trans hxy, hy⟩]
      rfl

/-! ## Mapping and unmapping -/

theorem Wf.with_host (h : Wf b) (host : Host) : Wf { b with host } := ⟨h.ordered, h.proper, h.fits⟩

/-- An interval in which nothing is mapped. -/
def Vacant (b : GuestBackingStore) (vaddr size : ℕ) : Prop :=
  ∀ x, vaddr ≤ x → x < vaddr + size → ¬ Occupied b.m_maps x

theorem Vacant.apart (h : Wf b) (hv : Vacant b vaddr size) (hsize : 0 < size) :
    ∀ c ∈ b.m_maps, vaddr + size ≤ lo c ∨ hi c ≤ vaddr := by
  intro c hc
  have hpc := h.proper c hc
  by_contra hmeet
  exact hv (max vaddr (lo c)) (by omega) (by omega) ⟨c, hc, by omega, by omega⟩

/-- **`MapExistingPlaceholderFixed`** on a vacant interval does not abort; it maps the
interval or changes nothing. -/
theorem mapExistingPlaceholderFixed_spec (h : Wf b) (backing_offset : ℕ)
    (mode : Mode) (hspan : vaddr + size ≤ UINT64_MAX) (hv : Vacant b vaddr size) :
    ∃ ok b', b.mapExistingPlaceholderFixed vaddr size backing_offset mode = some (ok, b') ∧
      Wf b' ∧ b'.m_size = b.m_size ∧
      (ok = false → b'.m_maps = b.m_maps) ∧
      (ok = true → b.rangeOk backing_offset size = true ∧ ∀ x, b'.byteAt x =
        if vaddr ≤ x ∧ x < vaddr + size then some (backing_offset + (x - vaddr), mode)
        else b.byteAt x) := by
  unfold mapExistingPlaceholderFixed
  by_cases hrange : b.rangeOk backing_offset size = true
  · have hsize : 0 < size := by
      unfold rangeOk at hrange
      rw [decide_eq_true_eq] at hrange
      exact Nat.pos_of_ne_zero hrange.1
    rw [if_pos hrange]
    generalize b.host.mapShared vaddr size backing_offset mode = called
    obtain ⟨mapped, host⟩ := called
    cases mapped with
    | false =>
      exact ⟨false, _, rfl, h.with_host host, rfl, fun _ => rfl, nofun⟩
    | true =>
      have hapart := hv.apart h hsize
      have hpos : lo (⟨vaddr, size, backing_offset, mode⟩ : MapEntry) <
          hi (⟨vaddr, size, backing_offset, mode⟩ : MapEntry) := by
        show vaddr < vaddr + size
        omega
      simp only [if_true, emplace_of_apart h.proper hpos hapart, map_some]
      refine ⟨true, _, rfl, ⟨h.ordered.place h.proper hpos hapart,
        proper_place hpos h.proper, ?_⟩, rfl, fun hf => absurd hf (by simp),
        fun _ => ⟨hrange, fun x => view_place h.ordered h.proper hpos hapart x⟩⟩
      intro e he
      rcases mem_place.mp he with rfl | he
      · exact hspan
      · exact h.fits e he
  · rw [if_neg hrange]
    exact ⟨false, b, rfl, h, rfl, fun _ => rfl, fun hf => absurd hf (by simp)⟩

/-- The interval lies in one view, which shows what `e` says it shows. -/
def Held (m_maps : List MapEntry) (e : MapEntry) : Prop :=
  ∃ old ∈ m_maps, old.vaddr ≤ e.vaddr ∧ e.vaddr + e.size ≤ old.vaddr + old.size ∧
    ∀ x, Covers e x → old.attr x = e.attr x

theorem Wf.floor_match (h : Wf b) {e old : MapEntry} (hsize : 0 < e.size) (hold : old ∈ b.m_maps)
    (hstart : old.vaddr ≤ e.vaddr) (hend : e.vaddr + e.size ≤ old.vaddr + old.size) :
    (floor? b.m_maps e.vaddr).filter
      (fun entry => decide (e.vaddr + e.size ≤ entry.vaddr + entry.size)) = some old := by
  have hfloor : floor? b.m_maps e.vaddr = some old :=
    h.ordered.floor?_of_covers h.proper hold ⟨hstart, by show e.vaddr < old.vaddr + old.size; omega⟩
  rw [hfloor, filter_some, if_pos (by simpa using hend)]

/-- **`UnmapOne`** of an interval in one view does not abort; it takes the interval
away or changes nothing. Views of later intervals stay views of them. -/
theorem unmapOne_spec (h : Wf b) {e : MapEntry} (hsize : 0 < e.size) (he : Held b.m_maps e) :
    ∃ ok b', b.unmapOne e.vaddr e.size = some (ok, b') ∧ Wf b' ∧ b'.m_size = b.m_size ∧
      (ok = false → b'.m_maps = b.m_maps) ∧
      (ok = true →
        (∀ x, b'.byteAt x = if Covers e x then none else b.byteAt x) ∧
        ∀ e' : MapEntry, e.vaddr + e.size ≤ e'.vaddr → 0 < e'.size → Held b.m_maps e' →
          Held b'.m_maps e') := by
  obtain ⟨old, hold, hstart, hend, hattr⟩ := he
  have hmatch := h.floor_match hsize hold hstart hend
  unfold unmapOne
  rw [hmatch]
  dsimp only
  rw [if_neg (by omega)]
  generalize b.host.mapAnonymous e.vaddr e.size = called
  obtain ⟨unmapped, host⟩ := called
  cases unmapped with
  | false =>
    exact ⟨false, _, rfl, h.with_host host, rfl, fun _ => rfl, nofun⟩
  | true =>
    obtain ⟨l, hcarve, ho, hp, hmem, hview⟩ := carve_spec MapEntry.attr h.ordered h.proper
      { old with size := e.vaddr - old.vaddr }
      { old with
        vaddr := e.vaddr + e.size
        size := old.vaddr + old.size - (e.vaddr + e.size)
        backing_offset := old.backing_offset + (e.vaddr + e.size - old.vaddr) }
      hold (s := e.vaddr) (e := e.vaddr + e.size) hstart (by omega) hend
      ⟨rfl, by show old.vaddr + (e.vaddr - old.vaddr) = e.vaddr; omega⟩
      ⟨rfl, by
        show e.vaddr + e.size + (old.vaddr + old.size - (e.vaddr + e.size)) = old.vaddr + old.size
        omega⟩
      (fun _ _ => rfl)
      (by
        intro x hx
        have hx' : e.vaddr + e.size ≤ x := hx.1
        unfold MapEntry.attr
        congr 1
        dsimp only
        omega)
    simp only [if_true, hcarve, map_some]
    refine ⟨true, _, rfl, ⟨ho, hp, ?_⟩, rfl, fun hf => absurd hf (by simp), fun _ => ⟨hview, ?_⟩⟩
    · intro c hc
      have hfit := h.fits old hold
      rcases (hmem c).mp hc with ⟨rfl, -⟩ | ⟨rfl, -⟩ | ⟨hc, -⟩
      · show old.vaddr + (e.vaddr - old.vaddr) ≤ UINT64_MAX
        omega
      · show e.vaddr + e.size + (old.vaddr + old.size - (e.vaddr + e.size)) ≤ UINT64_MAX
        omega
      · exact h.fits c hc
    · rintro e' hlater hsize' ⟨old', hold', hstart', hend', hattr'⟩
      by_cases hsame : lo old' = lo old
      · -- what follows in the same view lies in the part on the right
        obtain rfl := h.ordered.eq_of_lo_eq h.proper hold hold' hsame
        refine ⟨_, (hmem _).mpr (.inr (.inl ⟨rfl, ?_⟩)), hlater, ?_, ?_⟩
        · show e.vaddr + e.size < old'.vaddr + old'.size
          omega
        · show e'.vaddr + e'.size ≤ e.vaddr + e.size + (old'.vaddr + old'.size - (e.vaddr + e.size))
          omega
        · intro x hx
          rw [← hattr' x hx]
          have hx' : e'.vaddr ≤ x := hx.1
          unfold MapEntry.attr
          congr 1
          dsimp only
          omega
      · exact ⟨old', (hmem old').mpr (.inr (.inr ⟨hold', hsame⟩)), hstart', hend', hattr'⟩

/-- **Rolling back.** Parts that are apart and vacant are mapped again as they were,
unless the host refuses, which aborts. -/
theorem remap_spec (h : Wf b) {removed : List MapEntry} (hp : Proper removed)
    (hapart : Apart removed) (hfit : ∀ e ∈ removed, e.vaddr + e.size ≤ UINT64_MAX)
    (hv : ∀ x, Occupied removed x → ¬ Occupied b.m_maps x) (hremap : remap removed b = some b') :
    Wf b' ∧ b'.m_size = b.m_size ∧
      ∀ x, b'.byteAt x = (view MapEntry.attr removed x).or (b.byteAt x) := by
  induction removed generalizing b with
  | nil =>
    cases hremap
    exact ⟨h, rfl, fun _ => rfl⟩
  | cons e removed ih =>
    obtain ⟨hpe, hpr⟩ := proper_cons.mp hp
    obtain ⟨hea, har⟩ := apart_cons.mp hapart
    obtain ⟨hfe, hfr⟩ := forall_mem_cons.mp hfit
    have hvac : Vacant b e.vaddr e.size := fun x h1 h2 =>
      hv x ⟨e, .head _, h1, h2⟩
    obtain ⟨ok, b1, hmap, hwf, hsize, hfalse, htrue⟩ :=
      mapExistingPlaceholderFixed_spec h e.backing_offset e.mode hfe hvac
    unfold remap at hremap
    rw [hmap] at hremap
    cases ok with
    | false => nomatch hremap
    | true =>
      obtain ⟨-, hview⟩ := htrue rfl
      have hcov : ∀ x, Covers e x ↔ e.vaddr ≤ x ∧ x < e.vaddr + e.size := fun _ => .rfl
      have hv1 : ∀ x, Occupied removed x → ¬ Occupied b1.m_maps x := by
        intro x hx hx1
        have hne : b1.byteAt x ≠ none := view_ne_none_iff.mpr hx1
        rw [hview x] at hne
        by_cases hin : e.vaddr ≤ x ∧ x < e.vaddr + e.size
        · obtain ⟨c, hc, hc1, hc2⟩ := hx
          have hin' : lo e ≤ x ∧ x < hi e := hin
          rcases hea c hc with h' | h' <;> omega
        · rw [if_neg hin] at hne
          exact hv x (occupied_cons.mpr (.inr hx)) (view_ne_none_iff.mp hne)
      obtain ⟨hwf', hsize', hview'⟩ := ih hwf hpr har hfr hv1 hremap
      refine ⟨hwf', hsize'.trans hsize, fun x => ?_⟩
      rw [hview' x, hview x, view_cons]
      by_cases hin : Covers e x
      · -- the other parts are silent about the addresses of `e`
        have hnone : view MapEntry.attr removed x = none := by
          rw [view_eq_none_iff]
          rintro ⟨c, hc, hc1, hc2⟩
          obtain ⟨hin1, hin2⟩ := hin
          rcases hea c hc with h' | h' <;> omega
        rw [if_pos hin, if_pos ((hcov x).mp hin), hnone, none_or, some_or]
        rfl
      · rw [if_neg hin, if_neg (mt (hcov x).mpr hin)]

/-- **The loop of `Unmap`**, with `removed` already gone: it takes all targets away, or
puts everything back. -/
theorem unmapLoop_spec (h : Wf b) {targets removed : List MapEntry} (ho : Ordered targets)
    (hp : Proper targets) (hheld : ∀ e ∈ targets, Held b.m_maps e)
    (hfit : ∀ e ∈ removed ++ targets, e.vaddr + e.size ≤ UINT64_MAX)
    (hpr : Proper removed) (hapart : Apart (removed ++ targets))
    (hv : ∀ x, Occupied removed x → ¬ Occupied b.m_maps x)
    {ok : Bool} (hloop : unmapLoop targets removed b = some (ok, b')) :
    Wf b' ∧ b'.m_size = b.m_size ∧
    (ok = true → ∀ x, b'.byteAt x = if Occupied targets x then none else b.byteAt x) ∧
    (ok = false → ∀ x, b'.byteAt x = (view MapEntry.attr removed x).or (b.byteAt x)) := by
  induction targets generalizing b removed with
  | nil =>
    cases hloop
    refine ⟨h, rfl, fun _ x => ?_, nofun⟩
    rw [if_neg (occupied_nil x)]
  | cons e targets ih =>
    obtain ⟨hnext, ho'⟩ := ordered_cons.mp ho
    obtain ⟨hpe, hp'⟩ := proper_cons.mp hp
    obtain ⟨he, hheld'⟩ := forall_mem_cons.mp hheld
    have hpe' : e.vaddr < e.vaddr + e.size := hpe
    obtain ⟨har, hat, hcross⟩ := apart_append.mp hapart
    obtain ⟨ok1, b1, hone, hwf1, hsize1, hfalse1, htrue1⟩ :=
      unmapOne_spec h (e := e) (by omega) he
    unfold unmapLoop at hloop
    rw [hone] at hloop
    cases ok1 with
    | false =>
      -- the host refused: everything removed so far is mapped again
      obtain ⟨b2, hremap, heq⟩ := map_eq_some_iff.mp hloop
      cases heq
      have hsame := hfalse1 rfl
      obtain ⟨hwf2, hsize2, hview2⟩ := remap_spec hwf1 hpr har
        (fun c hc => hfit c (mem_append_left _ hc)) (by rw [hsame]; exact hv) hremap
      refine ⟨hwf2, hsize2.trans hsize1, fun hf => absurd hf (by simp), fun _ x => ?_⟩
      rw [hview2 x, byteAt, hsame]
    | true =>
      obtain ⟨hview1, hlater⟩ := htrue1 rfl
      have hapart' : Apart ((e :: removed) ++ targets) := by
        refine apart_append.mpr ⟨apart_cons.mpr ⟨fun c hc => ?_, har⟩, (apart_cons.mp hat).2, ?_⟩
        · exact (hcross c hc e mem_cons_self).symm
        · intro a ha c hc
          rcases mem_cons.mp ha with rfl | ha
          · exact (apart_cons.mp hat).1 c hc
          · exact hcross a ha c (.tail _ hc)
      have hv' : ∀ x, Occupied (e :: removed) x → ¬ Occupied b1.m_maps x := by
        intro x hx hx1
        have hne : b1.byteAt x ≠ none := view_ne_none_iff.mpr hx1
        rw [hview1 x] at hne
        by_cases hin : Covers e x
        · rw [if_pos hin] at hne
          exact hne rfl
        · rw [if_neg hin] at hne
          rcases occupied_cons.mp hx with hx | hx
          · exact hin hx
          · exact hv x hx (view_ne_none_iff.mp hne)
      have hheld1 : ∀ c ∈ targets, Held b1.m_maps c := by
        intro c hc
        have hpc : c.vaddr < c.vaddr + c.size := hp' c hc
        exact hlater c (hnext c hc) (by omega) (hheld' c hc)
      have hfit' : ∀ c ∈ (e :: removed) ++ targets, c.vaddr + c.size ≤ UINT64_MAX := by
        intro c hc
        refine hfit c ?_
        rcases mem_append.mp hc with hc | hc
        · rcases mem_cons.mp hc with rfl | hc
          · exact mem_append_right _ mem_cons_self
          · exact mem_append_left _ hc
        · exact mem_append_right _ (.tail _ hc)
      obtain ⟨hwf', hsize', htrue', hfalse'⟩ := ih hwf1 ho' hp' hheld1 hfit'
        (proper_cons.mpr ⟨hpe, hpr⟩) hapart' hv' hloop
      refine ⟨hwf', hsize'.trans hsize1, fun hok x => ?_, fun hok x => ?_⟩
      · rw [htrue' hok x, hview1 x]
        by_cases hin : Covers e x
        · rw [if_pos hin, ite_self, if_pos (occupied_cons.mpr (.inl hin))]
        · rw [if_neg hin]
          exact if_congr (by rw [occupied_cons, or_iff_right hin]) rfl rfl
      · rw [hfalse' hok x, hview1 x, view_cons]
        by_cases hin : Covers e x
        · -- what `e` showed is what the store showed there
          obtain ⟨old, hold, h1, h2, hattr⟩ := he
          have hold' : Covers old x := by
            obtain ⟨hin1, hin2⟩ := hin
            have hin1' : e.vaddr ≤ x := hin1
            have hin2' : x < e.vaddr + e.size := hin2
            exact ⟨by show old.vaddr ≤ x; omega, by show x < old.vaddr + old.size; omega⟩
          have hbyte : b.byteAt x = some (e.attr x) := by
            rw [byteAt, h.ordered.apart.view_of_mem hold hold', hattr x hin]
          have hnone : view MapEntry.attr removed x = none := by
            rw [view_eq_none_iff]
            intro hx
            exact hv x hx ⟨old, hold, hold'⟩
          rw [if_pos hin, hbyte, hnone, some_or, none_or]
        · rw [if_neg hin, if_neg hin]

theorem targets_spec {s e : ℕ} {parts : List (MapEntry × ℕ × ℕ)}
    (htiles : Tiles b.m_maps s e parts) :
    Ordered (parts.map target) ∧ Proper (parts.map target) ∧
      (∀ c ∈ parts.map target, Held b.m_maps c ∧ s ≤ c.vaddr ∧ c.vaddr + c.size ≤ e) ∧
      ∀ x, Occupied (parts.map target) x ↔ s ≤ x ∧ x < e := by
  induction parts generalizing s with
  | nil =>
    have hle : e ≤ s := htiles
    exact ⟨List.Pairwise.nil, fun _ hc => absurd hc not_mem_nil,
      fun _ hc => absurd hc not_mem_nil,
      fun x => iff_of_false (occupied_nil x) (by omega)⟩
  | cons part parts ih =>
    obtain ⟨entry, f, t⟩ := part
    obtain ⟨hmem, rfl, hlo, hlt, ht, hrest⟩ := htiles
    obtain ⟨h1, h2, h3, h4⟩ := ih hrest
    have hlo' : entry.vaddr ≤ f := hlo
    have ht' : t = min e (entry.vaddr + entry.size) := ht
    have hsum : f + (t - f) = t := by omega
    rw [map_cons]
    refine ⟨ordered_cons.mpr ⟨fun c hc => ?_, h1⟩, proper_cons.mpr ⟨?_, h2⟩,
      forall_mem_cons.mpr ⟨⟨⟨entry, hmem, hlo', ?_, fun x hx => ?_⟩, le_refl _, ?_⟩, ?_⟩,
      fun x => ?_⟩
    · show f + (t - f) ≤ c.vaddr
      rw [hsum]
      exact (h3 c hc).2.1
    · show f < f + (t - f)
      omega
    · show f + (t - f) ≤ entry.vaddr + entry.size
      omega
    · have hx' : f ≤ x := hx.1
      unfold target MapEntry.attr
      congr 1
      dsimp only
      omega
    · show f + (t - f) ≤ e
      omega
    · intro c hc
      exact ⟨(h3 c hc).1, by have := (h3 c hc).2.1; omega, (h3 c hc).2.2⟩
    · rw [occupied_cons, h4 x]
      show (f ≤ x ∧ x < f + (t - f)) ∨ _ ↔ _
      omega

/-- **`Unmap`** takes exactly the interval away, or changes no byte of the store. It
succeeds only where the whole interval is mapped. -/
theorem unmap_spec (h : Wf b) {ok : Bool} (hunmap : b.unmap vaddr size = some (ok, b')) :
    Wf b' ∧ b'.m_size = b.m_size ∧
    (ok = true → (∀ x, vaddr ≤ x → x < vaddr + size → Occupied b.m_maps x) ∧
      ∀ x, b'.byteAt x = if vaddr ≤ x ∧ x < vaddr + size then none else b.byteAt x) ∧
    (ok = false → ∀ x, b'.byteAt x = b.byteAt x) := by
  unfold unmap at hunmap
  by_cases hbad : size = 0 ∨ UINT64_MAX - vaddr < size
  · rw [if_pos hbad] at hunmap
    cases hunmap
    exact ⟨h, rfl, fun hf => absurd hf (by simp), fun _ _ => rfl⟩
  · rw [if_neg hbad] at hunmap
    cases hwalk : walk (fun current => b.findContainingUnlocked current 1) b.m_maps.length vaddr
        (vaddr + size) with
    | none =>
      rw [hwalk] at hunmap
      cases hunmap
      exact ⟨h, rfl, fun hf => absurd hf (by simp), fun _ _ => rfl⟩
    | some parts =>
      rw [hwalk] at hunmap
      have htiles := walk_tiles (sound_findContainingUnlocked h) hwalk
      obtain ⟨h1, h2, h3, h4⟩ := targets_spec htiles
      obtain ⟨hwf, hsize, htrue, hfalse⟩ := unmapLoop_spec h h1 h2 (fun c hc => (h3 c hc).1)
        (fun c hc => by have := (h3 c hc).2.2; omega) (fun _ hc => absurd hc not_mem_nil)
        h1.apart (fun x hx => absurd hx (occupied_nil x)) hunmap
      refine ⟨hwf, hsize, fun hok => ⟨fun x hx1 hx2 => ?_, fun x => ?_⟩, fun hok x => ?_⟩
      · obtain ⟨entry, f, t, -, hmem, hf, ht, hlo, hhi⟩ := htiles.exists_part hx1 hx2
        exact ⟨entry, hmem, by omega, by omega⟩
      · rw [htrue hok x]
        exact if_congr (h4 x) rfl rfl
      · rw [hfalse hok x, view_nil, none_or]

end GuestBackingStore

end MagnusPS5.Kernel
