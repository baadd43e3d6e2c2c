/-
Which buffer of the cache owns which page of the guest.

The buffers are in a map by their first address, and the owner of an address is the last
buffer that starts at it or before, if it reaches so far. `GetOrCreateBuffer` replaces the
buffers that overlap a new one: the new one covers each of them and has its bytes at the
place of its address (`Provided`). So after any requests, erasures and writes the buffers
are made of whole pages and do not overlap (`ownership_run`).
-/
import MagnusPS5.Lib.Copies
import MagnusPS5.Lib.Writes
import MagnusPS5.Graphics.BufferCacheRun

namespace MagnusPS5.Graphics

open Lib
open Spanned (lo hi)
open List CachedBuffer

/-- What a buffer holds at an offset. -/
def CachedBuffer.contents (b : CachedBuffer) (offset : ℕ) : ℕ := b.bytes (b.vaddr + offset)

namespace BufferCache

/-! ## Looking for a buffer -/

/-- The look-up of `ReadMemoryOnGpu` and of `ObtainBufferForImage`: the last buffer that
starts at the address or before, if the address is in its bounds. -/
def owner? (s : BufferCache) (x : ℕ) : Option CachedBuffer :=
  (floor? s.m_buffers x).filter fun owner => owner.isInBounds x 1

variable {s s' : BufferCache} {vaddr size : ℕ}

/-- **The owner of an address** is the one buffer that covers it. -/
theorem owner?_eq_some_iff (h : Inv s) (x : ℕ) (b : CachedBuffer) :
    s.owner? x = some b ↔ b ∈ s.m_buffers ∧ b.vaddr ≤ x ∧ x < b.vaddr + b.size := by
  constructor
  · intro hx
    obtain ⟨hfound, hbounds⟩ := Option.filter_eq_some_iff.mp hx
    obtain ⟨h1, h2, h3⟩ := isInBounds_iff.mp hbounds
    exact ⟨(mem_of_floor? hfound).1, h1, by omega⟩
  · rintro ⟨hb, h1, h2⟩
    apply Option.filter_eq_some_iff.mpr
    exact ⟨h.ordered.floor?_of_covers h.proper hb ⟨h1, h2⟩, isInBounds_iff.mpr (by omega)⟩

/-- **`IsRegionRegistered`** finds an overlap if there is one. -/
theorem isRegionRegistered_iff (h : Inv s) {result : Bool}
    (heq : isRegionRegistered vaddr size s = .ok result) :
    result = true ↔ ∃ b ∈ s.m_buffers, b.vaddr < vaddr + size ∧ vaddr < b.vaddr + b.size := by
  have hlast := h.ordered.getLast_meets_iff h.proper (s := vaddr) (e := vaddr + size)
  refine .trans ?_ hlast.symm
  unfold isRegionRegistered at heq
  split at heq
  · nomatch heq
  · -- the last buffer that starts before the end of the range, if there is one
    split at heq
    next hnone =>
      cases heq
      refine iff_of_false (by simp) ?_
      rintro ⟨b, hb, -⟩
      nomatch (hnone.symm.trans hb)
    next b hb =>
      cases heq
      rw [decide_eq_true_iff]
      constructor
      · intro hreaches
        exact ⟨b, hb, hreaches⟩
      · rintro ⟨b', hb', hreaches⟩
        cases hb.symm.trans hb'
        exact hreaches

/-! ## What a new buffer holds -/

/-- What the calls of `CopyFrom` leave in a new buffer, by offset. -/
def copied (vaddr : ℕ) (overlaps : List CachedBuffer) : ℕ → ℕ :=
  overlaps.foldl
    (fun contents old => copyBlock old.contents 0 (old.vaddr - vaddr) old.size contents)
    fun _ => 0

theorem copyFrom_eq_copied {overlaps : List CachedBuffer}
    (h : ∀ old ∈ overlaps, vaddr ≤ old.vaddr) (offset : ℕ) :
    copyFrom overlaps (vaddr + offset) = copied vaddr overlaps offset := by
  -- the two arrays agree after each copy
  have hloop : ∀ (bytes contents : ℕ → ℕ), (∀ i, bytes (vaddr + i) = contents i) →
      overlaps.foldl (fun bytes old => overwrite bytes old.vaddr old.size old.bytes) bytes
          (vaddr + offset) =
        overlaps.foldl
          (fun contents old => copyBlock old.contents 0 (old.vaddr - vaddr) old.size contents)
          contents offset := by
    induction overlaps with
    | nil =>
      intro bytes contents hsame
      exact hsame offset
    | cons old overlaps ih =>
      intro bytes contents hsame
      rw [foldl_cons, foldl_cons]
      refine ih (fun old hold => h old (.tail _ hold)) _ _ fun i => ?_
      have hle := h old mem_cons_self
      unfold overwrite
      by_cases hin : old.vaddr ≤ vaddr + i ∧ vaddr + i < old.vaddr + old.size
      · rw [if_pos hin, copyBlock_of_mem (by omega) (by omega)]
        congr 1
        omega
      · rw [if_neg hin, copyBlock_of_not_mem (by omega)]
        exact hsame i
  exact hloop _ _ fun _ => rfl

theorem copyFrom_of_covers {overlaps : List CachedBuffer} {old : CachedBuffer} {x : ℕ}
    (hold : old ∈ overlaps) (hx : Covers old x)
    (hunique : ∀ other ∈ overlaps, Covers other x → other = old) :
    copyFrom overlaps x = old.bytes x := by
  let covers : CachedBuffer → ℕ → Bool := fun b x => decide (Covers b x)
  have hwritten : ∀ bytes : ℕ → ℕ,
      overlaps.foldl (fun bytes old => overwrite bytes old.vaddr old.size old.bytes) bytes x =
        written covers (fun old => old.bytes x) overlaps x (bytes x) := by
    clear hold hunique
    induction overlaps with
    | nil => exact fun _ => rfl
    | cons old overlaps ih =>
      intro bytes
      have hhead : overwrite bytes old.vaddr old.size old.bytes x =
          if covers old x then old.bytes x else bytes x := by
        by_cases hin : Covers old x
        · rw [if_pos (decide_eq_true hin)]
          exact if_pos hin
        · rw [if_neg (by simpa [covers] using hin)]
          exact if_neg hin
      rw [foldl_cons, ih, hhead]
      rfl
  unfold copyFrom
  rw [hwritten]
  refine written_of_exact covers _ (fun other hother hcovers => ?_) ⟨old, hold, decide_eq_true hx⟩ _
  rw [hunique other hother (of_decide_eq_true hcovers)]

/-! ## Requests -/

/-- The buffer is still there, with its bytes. -/
def Kept (old : CachedBuffer) (s : BufferCache) : Prop :=
  ∃ b ∈ s.m_buffers, b.vaddr = old.vaddr ∧ b.size = old.size ∧ b.bytes = old.bytes

/-- The new buffer covers the old one, and has its bytes at the offset of its address. -/
def Replaced (old b : CachedBuffer) : Prop :=
  b.vaddr ≤ old.vaddr ∧ old.vaddr + old.size ≤ b.vaddr + b.size ∧
    ∀ i < old.size, b.contents (old.vaddr - b.vaddr + i) = old.contents i

/-- The buffer of a request. It contains the range and is an old one, or what the copies of
those that it replaces leave in a new one; the other buffers are as before. -/
structure Provided (s s' : BufferCache) (vaddr size : ℕ) (b : CachedBuffer) : Prop where
  live : b ∈ s'.m_buffers
  contains_ : b.vaddr ≤ vaddr ∧ vaddr + size ≤ b.vaddr + b.size
  others : ∀ other ∈ s'.m_buffers, other.vaddr = b.vaddr ∨ other ∈ s.m_buffers
  old : ∀ old ∈ s.m_buffers, Kept old s' ∨ Replaced old b
  filled : (∃ old ∈ s.m_buffers, b.vaddr = old.vaddr ∧ b.size = old.size ∧ b.bytes = old.bytes) ∨
    ∃ overlaps, (∀ old ∈ overlaps, old ∈ s.m_buffers ∧ Replaced old b) ∧
      ∀ offset, b.contents offset = copied b.vaddr overlaps offset

theorem provided_of_found {owner : CachedBuffer}
    (howner : owner ∈ s.m_buffers) (hbounds : owner.isInBounds vaddr size = true) (tick : ℕ) :
    Provided s { s with
        m_buffers := modifyBuffer owner.vaddr (fun b => { b with tick_accessed_last := tick })
          s.m_buffers } vaddr size { owner with tick_accessed_last := tick } := by
  obtain ⟨h1, h2, h3⟩ := isInBounds_iff.mp hbounds
  refine ⟨mem_map.mpr ⟨owner, howner, if_pos rfl⟩, ⟨h1, ?_⟩, fun other hother => ?_,
    fun old hold => .inl ?_, .inl ⟨owner, howner, rfl, rfl, rfl⟩⟩
  · show vaddr + size ≤ owner.vaddr + owner.size
    omega
  · obtain ⟨old, hold, rfl⟩ := mem_map.mp hother
    by_cases hsame : old.vaddr = owner.vaddr
    · rw [if_pos hsame]
      exact .inl hsame
    · rw [if_neg hsame]
      exact .inr hold
  · refine ⟨_, mem_map.mpr ⟨old, hold, rfl⟩, ?_⟩
    split <;> exact ⟨rfl, rfl, rfl⟩

theorem Merged.provided (h : Inv s) {range : ℕ × ℕ}
    {result : (ℕ × ℕ) × List CachedBuffer} (hmerged : Merged s range result)
    {cached : CachedBuffer} {total : ℕ} (hvaddr : cached.vaddr = result.1.1)
    (hsize : cached.size = result.1.2) (hbytes : cached.bytes = copyFrom result.2)
    (hbegin : range.1 ≤ vaddr) (hend : vaddr + size ≤ range.1 + range.2) :
    Provided s { s with
        m_buffers := place cached (eraseBuffers (result.2.map CachedBuffer.vaddr) s.m_buffers)
        m_total_used_memory := total } vaddr size cached := by
  obtain ⟨hbegin', hend', -, -, hover, -⟩ := hmerged
  obtain ⟨merged, overlaps⟩ := result
  have hcovers : ∀ old ∈ overlaps, cached.vaddr ≤ old.vaddr ∧
      old.vaddr + old.size ≤ cached.vaddr + cached.size := by
    intro old hold
    obtain ⟨-, h1, h2⟩ := hover old hold
    rw [hvaddr, hsize]
    exact ⟨h1, h2⟩
  have hcopied : ∀ offset, cached.contents offset = copied cached.vaddr overlaps offset := by
    intro offset
    rw [← copyFrom_eq_copied fun old hold => (hcovers old hold).1]
    unfold CachedBuffer.contents
    rw [hbytes]
  have hreplaced : ∀ old ∈ overlaps, Replaced old cached := by
    intro old hold
    obtain ⟨h1, h2⟩ := hcovers old hold
    refine ⟨h1, h2, fun i hi => ?_⟩
    have haddress : cached.vaddr + (old.vaddr - cached.vaddr + i) = old.vaddr + i := by omega
    unfold CachedBuffer.contents
    rw [haddress, hbytes]
    have hin : Covers old (old.vaddr + i) := ⟨Nat.le_add_right _ _, Nat.add_lt_add_left hi _⟩
    -- no other overlap has the byte
    apply copyFrom_of_covers hold hin
    intro other hother hin'
    exact h.ordered.apart.eq_of_covers (hover other hother).1 (hover old hold).1 hin' hin
  refine ⟨mem_place.mpr (.inl rfl), ⟨by omega, by omega⟩, fun other hother => ?_,
    fun old hold => ?_, .inr ⟨overlaps, fun old hold => ⟨(hover old hold).1, hreplaced old hold⟩,
      hcopied⟩⟩
  · rcases mem_place.mp hother with rfl | hother
    · exact .inl rfl
    · exact .inr (mem_eraseBuffers.mp hother).1
  · by_cases hin : old.vaddr ∈ overlaps.map CachedBuffer.vaddr
    · obtain ⟨other, hother, hsame⟩ := mem_map.mp hin
      have heq := h.ordered.eq_of_lo_eq h.proper hold (hover other hother).1 hsame
      rw [← heq]
      exact .inr (hreplaced other hother)
    · exact .inl ⟨old, mem_place.mpr (.inr (mem_eraseBuffers.mpr ⟨hold, hin⟩)), rfl, rfl, rfl⟩

/-- **`GetOrCreateBuffer`** provides a buffer for a range inside of the address space. -/
theorem getOrCreateBuffer_provided (h : Inv s) (hsize : 0 < size) (hfits : vaddr + size < 2 ^ 64) :
    Yields Stops (getOrCreateBuffer vaddr size s) fun result =>
      ∃ b, b.vaddr = result.1 ∧ Provided s result.2 vaddr size b := by
  unfold getOrCreateBuffer
  rw [Nat.mod_eq_of_lt hfits]
  refine (alignUp_yields _).bind fun end_ hend => ?_
  obtain ⟨hend1, hend2, hend3⟩ := hend
  cases hfloor : (floor? s.m_buffers vaddr).filter fun owner => owner.isInBounds vaddr size with
  | some owner =>
    obtain ⟨hfound, hbounds⟩ := Option.filter_eq_some_iff.mp hfloor
    exact yields_pure ⟨{ owner with tick_accessed_last := s.m_gc_tick }, rfl,
      provided_of_found (mem_of_floor? hfound).1 hbounds s.m_gc_tick⟩
  | none =>
    obtain ⟨hmod, hpages, hpositive, hbegin, hcontains⟩ := request_range hsize hend1 hend2 hend3
    rw [hmod]
    refine (overlaps_yields h (alignDown vaddr, end_ - alignDown vaddr) hpages
      hpositive).bind fun first hfirst => ?_
    refine hfirst.bind fun result hmerged => ?_
    refine (subtractUsed_stops _ _).bind fun total _ => yields_pure ?_
    exact ⟨_, rfl, hmerged.provided h rfl rfl rfl hbegin hcontains⟩

/-! ## Runs -/

/-- A request of `ObtainBuffer` or of `ObtainBufferForImage`. These check the range as well,
the first when it goes on with the memory tracker. -/
def request (vaddr size : ℕ) (s : BufferCache) : Except CacheAbort (ℕ × BufferCache) := do
  let result ← getOrCreateBuffer vaddr size s
  let _ ← lift .tracker (MemoryTracker.validateRange vaddr size)
  return result

/-- What changes the buffers. -/
inductive Change
  | request (vaddr size : ℕ)
  /-- The buffers at some addresses are erased: by the collector, or with their memory. -/
  | erase (addresses : List ℕ)
  /-- What the buffer at an address holds is changed, by an upload or by the GPU. -/
  | write (address : ℕ) (bytes : ℕ → ℕ)

/-- One change. -/
def change (s : BufferCache) : Change → Except CacheAbort BufferCache
  | .request vaddr size => (request vaddr size s).map Prod.snd
  | .erase addresses => .ok { s with m_buffers := eraseBuffers addresses s.m_buffers }
  | .write address bytes =>
    .ok { s with m_buffers := modifyBuffer address (fun b => { b with bytes }) s.m_buffers }

theorem request_ok {address : ℕ} (h : request vaddr size s = .ok (address, s')) :
    getOrCreateBuffer vaddr size s = .ok (address, s') ∧ 0 < size ∧ vaddr + size < 2 ^ 64 := by
  obtain ⟨result, hresult, hrest⟩ := bind_eq_ok.mp h
  obtain ⟨_, hrange, hreturn⟩ := bind_eq_ok.mp hrest
  cases hreturn
  refine ⟨hresult, ?_⟩
  by_contra hbad
  have hinvalid : MemoryTracker.validateRange vaddr size = .error .invalidTrackerRange := by
    unfold MemoryTracker.validateRange TRACKER_ADDRESS_SIZE
    exact if_pos (by omega)
  rw [hinvalid] at hrange
  exact absurd hrange (by simp [lift])

/-- **One change.** -/
theorem change_inv (h : Inv s) {c : Change} (heq : change s c = .ok s') : Inv s' := by
  cases c with
  | request vaddr size =>
    obtain ⟨address, hrequest⟩ := snd_of_map heq
    obtain ⟨hget, hsize, hfits⟩ := request_ok hrequest
    exact ((getOrCreateBuffer_yields h hsize hfits).of_ok hget).inv
  | erase addresses =>
    cases heq
    have hsub : List.Sublist (eraseBuffers addresses s.m_buffers) s.m_buffers :=
      filter_sublist
    exact ⟨h.ordered.sublist hsub, fun b hb => h.proper b (hsub.subset hb),
      fun b hb => h.pages b (hsub.subset hb), h.ranges, h.tracker⟩
  | write address bytes =>
    cases heq
    exact h.modify address (fun _ => rfl) fun _ => rfl

theorem changes_inv (h : Inv s) {changes : List Change}
    (hrun : changes.foldlM change s = .ok s') : Inv s' := by
  induction changes generalizing s with
  | nil =>
    cases hrun
    exact h
  | cons c changes ih =>
    rw [foldlM_cons] at hrun
    obtain ⟨s1, hstep, hrest⟩ := bind_eq_ok.mp hrun
    exact ih (change_inv h hstep) hrest

/-- **The ownership map**, after any requests, erasures and writes. The live buffers are made
of whole pages and do not overlap; each address has the one owner that covers it, or none;
a request gives a buffer with its range, which has the bytes of those that it replaces; and
a range is registered exactly if a live buffer overlaps it. -/
theorem ownership_run {hot_page_escape : Bool} {guest : Option Kernel.GuestAddressSpace}
    {budget : Option ℕ} {download_fits : ℕ → Bool} {memory : ℕ → ℕ} {changes : List Change}
    {s : BufferCache}
    (hrun : changes.foldlM change (start hot_page_escape guest budget download_fits memory) =
      .ok s) :
    (∀ b ∈ s.m_buffers,
      b.vaddr % CACHING_PAGE_SIZE = 0 ∧ b.size % CACHING_PAGE_SIZE = 0 ∧ 0 < b.size) ∧
    s.m_buffers.Pairwise (fun a b => a.vaddr + a.size ≤ b.vaddr) ∧
    (∀ x b, s.owner? x = some b ↔ b ∈ s.m_buffers ∧ b.vaddr ≤ x ∧ x < b.vaddr + b.size) ∧
    (∀ vaddr size address s', request vaddr size s = .ok (address, s') →
      ∃ b, b.vaddr = address ∧ Provided s s' vaddr size b) ∧
    (∀ vaddr size result, isRegionRegistered vaddr size s = .ok result →
      (result = true ↔
        ∃ b ∈ s.m_buffers, b.vaddr < vaddr + size ∧ vaddr < b.vaddr + b.size)) := by
  have h : Inv s := changes_inv
    (owned_start hot_page_escape guest budget download_fits memory).toInv hrun
  refine ⟨fun b hb => ?_, h.ordered, owner?_eq_some_iff h, fun vaddr size address s' hrequest => ?_,
    fun vaddr size result heq => isRegionRegistered_iff h heq⟩
  · have hproper : b.vaddr < b.vaddr + b.size := h.proper b hb
    exact ⟨(h.pages b hb).1, (h.pages b hb).2, by omega⟩
  · obtain ⟨hget, hsize, hfits⟩ := request_ok hrequest
    exact (getOrCreateBuffer_provided h hsize hfits).of_ok hget

/-- Two buffers of one page, and a request that makes one of them and of the page between. -/
def mergeThree : List Change :=
  [.request 0x10000 0x100, .write 0x10000 (fun x => x), .request 0x18000 0x100,
    .request 0x10100 0x8000]

/-- The byte of the first buffer is in the merged one. -/
theorem ownership_run_merge :
    ∃ s, mergeThree.foldlM change exampleStart = .ok s ∧
      (∃ b ∈ s.m_buffers, b.vaddr = 0x10000 ∧ b.size = 0xc000 ∧ b.contents 0x20 = 0x10020) ∧
      ∀ x b, s.owner? x = some b ↔ b ∈ s.m_buffers ∧ b.vaddr ≤ x ∧ x < b.vaddr + b.size := by
  have hmerged : ((mergeThree.foldlM change exampleStart).toOption.any fun s =>
      s.m_buffers.any fun b => decide (b.vaddr = 0x10000 ∧ b.size = 0xc000 ∧
        b.contents 0x20 = 0x10020)) = true := by decide +kernel
  obtain ⟨s, hs, hany⟩ := exists_of_any hmerged
  obtain ⟨b, hb, hfacts⟩ := List.any_eq_true.mp hany
  exact ⟨s, hs, ⟨b, hb, of_decide_eq_true hfacts⟩, (ownership_run hs).2.2.1⟩

/-- The map has no entry for the second page of a buffer. -/
theorem second_page_without_entry :
    ∃ s b, [Change.request 0x10000 0x8000].foldlM change exampleStart = .ok s ∧
      b ∈ s.m_buffers ∧ b.vaddr ≤ 0x14000 ∧ 0x14000 < b.vaddr + b.size ∧
      ∀ entry ∈ s.m_buffers, entry.vaddr ≠ 0x14000 := by
  have hmissing : (([.request 0x10000 0x8000].foldlM change exampleStart).toOption.any
      fun s => (s.m_buffers.any fun b => decide (b.vaddr ≤ 0x14000 ∧ 0x14000 < b.vaddr + b.size)) &&
        s.m_buffers.all fun entry => decide (entry.vaddr ≠ 0x14000)) = true := by decide +kernel
  obtain ⟨s, hs, hboth⟩ := exists_of_any hmissing
  rw [Bool.and_eq_true] at hboth
  obtain ⟨b, hb, hcovers⟩ := List.any_eq_true.mp hboth.1
  obtain ⟨h1, h2⟩ := of_decide_eq_true hcovers
  exact ⟨s, b, hs, hb, h1, h2, fun entry hentry =>
    of_decide_eq_true (List.all_eq_true.mp hboth.2 entry hentry)⟩

end BufferCache

end MagnusPS5.Graphics
