/-
`KernelMprotect` (`memory.cpp`): the guest changes the protection of its own memory.

The call rounds the range to guest pages, asks the host for the new protection, and
enters it in every table that keeps one. It knows nothing of the page manager of the
graphics library, which protects pages through the same address space. A call that runs
into an `EXIT` has no result.
-/
import MagnusPS5.Kernel.FlexibleMemory
import MagnusPS5.Kernel.VirtualRanges
import MagnusPS5.Kernel.AddressSpaceSpec

namespace MagnusPS5.Kernel

open Lib
open Spanned (lo hi)
open HostByte List Option

/-! ## The call -/

/-- `g_virtual_ranges`, `g_physical_memory` and `g_flexible_memory`. -/
structure MemoryTables where
  virtual_ranges : VirtualRanges
  physical_memory : PhysicalMemory
  flexible_memory : FlexibleMemory

/-- `OK` and `KERNEL_ERROR_EINVAL`. -/
inductive MprotectResult
  | ok | invalid
  deriving DecidableEq

/-- `aligned_addr` and `aligned_len`, if the range does not overflow. -/
def mprotectRange (vaddr len : ℕ) : Option (ℕ × ℕ) :=
  let aligned_addr := vaddr - vaddr % 0x4000
  let page_offset := vaddr - aligned_addr
  if len > UINT64_MAX - page_offset ∨ len + page_offset > UINT64_MAX - (0x4000 - 1) then none
  else
    let last := len + page_offset + 0x4000 - 1
    some (aligned_addr, last - last % 0x4000)

/-- The new protection is entered in the table that the range belongs to. -/
def protectTables (prot : Flags) (mode : Mode) (gpu_mode : GpuAccessMode) (m : MemoryTables)
    (old_range : Range) : MemoryTables :=
  if old_range.type = .direct then
    { m with
      physical_memory :=
        m.physical_memory.protectMapping old_range.start old_range.size prot mode gpu_mode }
  else if old_range.type = .flexible then
    { m with
      flexible_memory :=
        m.flexible_memory.protect old_range.start old_range.size prot mode gpu_mode }
  else m

def kernelMprotect (m : MemoryTables) (space : GuestAddressSpace) (vaddr len : ℕ) (prot : Flags) :
    Option (MprotectResult × MemoryTables × GuestAddressSpace) :=
  match mprotectRange vaddr len with
  | none => none
  | some (aligned_addr, aligned_len) =>
    if aligned_len = 0 then some (.ok, m, space)
    else
      match decodeMemoryProtection prot with
      | none => some (.invalid, m, space)
      | some (mode, gpu_mode) =>
        match m.virtual_ranges.querySpan aligned_addr aligned_len with
        | none => none
        | some old_ranges =>
          if old_ranges.any fun range => !isCommittedRangeType range.type then none
          else
            match space.protect aligned_addr aligned_len mode with
            | (false, _) => none
            | (true, space) =>
              let m := old_ranges.foldl (protectTables prot mode gpu_mode) m
              some (.ok,
                { m with
                  virtual_ranges :=
                    m.virtual_ranges.protect aligned_addr aligned_len prot },
                space)

/-! ## The protection of one address -/

/-- What the host lets a program do at the address. -/
def HostByte.mode : HostByte → Mode
  | .unmapped => .noAccess
  | .anonymous prot _ => prot
  | .shared prot _ => prot

/-- What the host lets the guest do at an address. -/
def GuestAddressSpace.modeAt (s : GuestAddressSpace) (x : ℕ) : Mode :=
  (s.m_backing.host.memory x).mode

@[simp] theorem HostByte.withProt_withProt (mode : Mode) (b : HostByte) :
    (b.withProt mode).withProt mode = b.withProt mode := by
  cases b <;> rfl

theorem HostByte.mode_withProt (mode : Mode) (b : HostByte) :
    (b.withProt mode).mode = mode ∨ (b.withProt mode).mode = .noAccess := by
  cases b with
  | unmapped => exact .inr rfl
  | anonymous | shared => exact .inl rfl

variable {size vaddr len : ℕ} {mode : Mode}

theorem Host.protect_true {h h' : Host} {address : ℕ}
    (heq : h.protect address size mode = (true, h')) (x : ℕ) :
    h'.memory x = if OnPages address size x then (h.memory x).withProt mode else h.memory x := by
  obtain ⟨hok, rfl⟩ := Prod.mk.inj heq
  simp only [hok, if_true]

namespace GuestAddressSpace

variable {end_ x : ℕ}

theorem in_of_onPages {start stop : ℕ} (hstart : vaddr % 4096 = 0)
    (hend : end_ % 4096 = 0) (h1 : vaddr ≤ start) (h2 : start < stop) (h3 : stop ≤ end_)
    (h : Host.OnPages start (stop - start) x) : vaddr ≤ x ∧ x < end_ := by
  obtain ⟨hlo, hhi⟩ := h
  omega

/-- **`ProtectMappedUnlocked`** protects what the regions cover of the interval, and
nothing outside of it. -/
theorem protectMappedLoop_spec (hstart : vaddr % 4096 = 0)
    (hend : end_ % 4096 = 0) {regions : List MappedRegion} (ho : Ordered regions)
    (hp : Proper regions) {host host' : Host}
    (heq : protectMappedLoop vaddr end_ mode regions host = (true, host')) (x : ℕ) :
    (host'.memory x = host.memory x ∨
      (vaddr ≤ x ∧ x < end_) ∧ host'.memory x = (host.memory x).withProt mode) ∧
    (vaddr ≤ x → x < end_ → Occupied regions x →
      host'.memory x = (host.memory x).withProt mode) := by
  induction regions generalizing host with
  | nil =>
    cases heq
    exact ⟨.inl rfl, fun _ _ ⟨r, hr, _⟩ => nomatch hr⟩
  | cons region rest ih =>
    obtain ⟨hfirst, horest⟩ := ordered_cons.mp ho
    have hprest : Proper rest := fun r hr => hp r (.tail _ hr)
    unfold protectMappedLoop at heq
    by_cases hgo : region.vaddr < end_
    · rw [if_pos hgo] at heq
      by_cases hmeet : max vaddr region.vaddr < min end_ (region.vaddr + region.size)
      · rw [if_pos hmeet] at heq
        split at heq
        next host1 hcall =>
          have hmem := Host.protect_true hcall x
          have hrun := ih horest hprest heq
          by_cases hon : Host.OnPages (max vaddr region.vaddr)
              (min end_ (region.vaddr + region.size) - max vaddr region.vaddr) x
          · -- the page is protected now, and stays so
            have hin := in_of_onPages hstart hend (by omega) hmeet (by omega) hon
            rw [if_pos hon] at hmem
            have hdone : host'.memory x = (host.memory x).withProt mode := by
              rcases hrun.1 with hsame | ⟨-, hagain⟩
              · rw [hsame, hmem]
              · rw [hagain, hmem, withProt_withProt]
            exact ⟨.inr ⟨hin, hdone⟩, fun _ _ _ => hdone⟩
          · rw [if_neg hon] at hmem
            rw [hmem] at hrun
            refine ⟨hrun.1, fun h1 h2 hocc => hrun.2 h1 h2 ?_⟩
            obtain ⟨r, hr, hcov⟩ := hocc
            rcases mem_cons.mp hr with rfl | hr
            · -- the region of the address would have put it on the pages
              have h3 : r.vaddr ≤ x := hcov.1
              have h4 : x < r.vaddr + r.size := hcov.2
              exact absurd (show Host.OnPages _ _ x from ⟨by omega, by omega⟩) hon
            · exact ⟨r, hr, hcov⟩
        · nomatch (congrArg Prod.fst heq)
      · rw [if_neg hmeet] at heq
        have hrun := ih horest hprest heq
        refine ⟨hrun.1, fun h1 h2 hocc => hrun.2 h1 h2 ?_⟩
        obtain ⟨r, hr, hcov⟩ := hocc
        rcases mem_cons.mp hr with rfl | hr
        · have h3 : r.vaddr ≤ x := hcov.1
          have h4 : x < r.vaddr + r.size := hcov.2
          omega
        · exact ⟨r, hr, hcov⟩
    · rw [if_neg hgo] at heq
      cases heq
      refine ⟨.inl rfl, fun _ h2 ⟨r, hr, hcov⟩ => ?_⟩
      have h3 : r.vaddr ≤ x := hcov.1
      rcases mem_cons.mp hr with rfl | hr
      · omega
      · have h4 : region.vaddr + region.size ≤ r.vaddr := hfirst r hr
        omega

theorem sublist_from {α : Type*} (l : List α) (p : α → Bool) :
    ((l.takeWhile p).getLast?.toList ++ l.dropWhile p).Sublist l := by
  have hsplit : l.takeWhile p ++ l.dropWhile p = l := takeWhile_append_dropWhile
  have hlast : (l.takeWhile p).getLast?.toList.Sublist (l.takeWhile p) := by
    cases hl : (l.takeWhile p).getLast? with
    | none => exact nil_sublist _
    | some a => exact singleton_sublist.mpr (mem_of_getLast? hl)
  have happend := hlast.append (.refl (l.dropWhile p))
  rw [hsplit] at happend
  exact happend

/-- The regions that `Protect` goes over: the one at the address or before it, and those
behind. -/
theorem occupied_from {m_mapped : List MappedRegion} (h : MappedWf m_mapped)
    (hx : vaddr ≤ x) (hocc : Occupied m_mapped x) :
    Occupied ((m_mapped.takeWhile fun r => decide (r.vaddr ≤ vaddr)).getLast?.toList ++
      m_mapped.dropWhile fun r => decide (r.vaddr ≤ vaddr)) x := by
  obtain ⟨r, hr, hcov⟩ := hocc
  have hsplit : m_mapped.takeWhile (fun r => decide (r.vaddr ≤ vaddr)) ++
      m_mapped.dropWhile (fun r => decide (r.vaddr ≤ vaddr)) = m_mapped :=
    takeWhile_append_dropWhile
  rw [← hsplit] at hr
  rcases mem_append.mp hr with hr | hr
  · -- a region that starts before the address and reaches it is the last of these
    have hle : r.vaddr ≤ vaddr := by simpa using mem_takeWhile_imp hr
    have hlt : x < r.vaddr + r.size := hcov.2
    have hfloor : floor? m_mapped vaddr = some r :=
      h.ordered.floor?_of_covers h.proper (( takeWhile_prefix _).subset hr)
        ⟨hle, by show vaddr < r.vaddr + r.size; omega⟩
    have hlast : (m_mapped.takeWhile fun r => decide (r.vaddr ≤ vaddr)).getLast? = some r := hfloor
    rw [hlast]
    exact ⟨r, mem_append_left _ (mem_singleton.mpr rfl), hcov⟩
  · exact ⟨r, mem_append_right _ hr, hcov⟩

/-- **`Protect`** of whole host pages: the mapped addresses of the interval get the mode,
if the host has them, and no other address changes. -/
theorem protect_spec {s s' : GuestAddressSpace} (h : MappedWf s.m_mapped)
    (hstart : vaddr % 4096 = 0) (hsize : size % 4096 = 0)
    (heq : s.protect vaddr size mode = (true, s')) :
    s'.m_mapped = s.m_mapped ∧ ∀ x,
      (¬ (vaddr ≤ x ∧ x < vaddr + size) → s'.modeAt x = s.modeAt x) ∧
      (vaddr ≤ x → x < vaddr + size → Occupied s.m_mapped x →
        s'.modeAt x = mode ∨ s'.modeAt x = .noAccess) := by
  unfold protect at heq
  split at heq
  · nomatch (congrArg Prod.fst heq)
  · obtain ⟨hok, rfl⟩ := Prod.mk.inj heq
    have hsub : ((s.m_mapped.takeWhile fun r => decide (r.vaddr ≤ vaddr)).getLast?.toList ++
        s.m_mapped.dropWhile fun r => decide (r.vaddr ≤ vaddr)).Sublist s.m_mapped :=
      sublist_from s.m_mapped _
    refine ⟨rfl, fun x => ?_⟩
    have hspec := protectMappedLoop_spec hstart (by omega) (h.ordered.sublist hsub)
      (fun r hr => h.proper r (hsub.subset hr)) (Prod.ext hok rfl) x
    constructor
    · intro hout
      rcases hspec.1 with hsame | ⟨hin, -⟩
      · exact congrArg HostByte.mode hsame
      · exact absurd hin hout
    · intro h1 h2 hocc
      have hdone := hspec.2 h1 h2 (occupied_from h h1 hocc)
      show HostByte.mode _ = mode ∨ HostByte.mode _ = .noAccess
      rw [hdone]
      exact mode_withProt mode _

end GuestAddressSpace

/-! ## What the call does to the host -/

theorem mprotectRange_aligned {aligned_addr aligned_len : ℕ}
    (h : mprotectRange vaddr len = some (aligned_addr, aligned_len)) :
    aligned_addr % 4096 = 0 ∧ aligned_len % 4096 = 0 := by
  obtain ⟨-, heq⟩ := ite_none_left_eq_some.mp h
  cases heq
  omega

/-- **`KernelMprotect`** either leaves the address space alone, or decodes the protection
and protects the rounded range. -/
theorem kernelMprotect_cases {m m' : MemoryTables} {space space' : GuestAddressSpace}
    {prot : Flags} {result : MprotectResult}
    (h : kernelMprotect m space vaddr len prot = some (result, m', space')) :
    space' = space ∨ ∃ aligned_addr aligned_len mode gpu_mode,
      mprotectRange vaddr len = some (aligned_addr, aligned_len) ∧
      decodeMemoryProtection prot = some (mode, gpu_mode) ∧
      space.protect aligned_addr aligned_len mode = (true, space') := by
  unfold kernelMprotect at h
  split at h
  · nomatch h
  next aligned_addr aligned_len hrange =>
    split at h
    · obtain ⟨-, hrest⟩ := Prod.mk.inj (some.inj h)
      exact .inl (Prod.mk.inj hrest).2.symm
    · split at h
      · obtain ⟨-, hrest⟩ := Prod.mk.inj (some.inj h)
        exact .inl (Prod.mk.inj hrest).2.symm
      next mode gpu_mode hmode =>
        split at h
        · nomatch h
        · split at h
          · nomatch h
          · split at h
            · nomatch h
            next space1 hprotect =>
              obtain ⟨-, hrest⟩ := Prod.mk.inj (some.inj h)
              cases hrest
              exact .inr ⟨aligned_addr, aligned_len, mode, gpu_mode, hrange, hmode, hprotect⟩

end MagnusPS5.Kernel
