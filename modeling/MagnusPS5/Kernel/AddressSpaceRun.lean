/-
`GuestAddressSpace` over whole runs of its four operations, with any arguments and
any results of the host calls.

`Inv` says how the three containers and the backing store belong together, and
`step_spec` that a step keeps it and that a step which fails changes no byte. Both
fail at two places of the source: `FindContaining` adds the address and the size
without looking at the carry, and finds the empty interval in the middle of a block;
and `ClaimFixedUnlocked` takes pages from the host without looking at what is on
them. `StepOk` is the condition that a step does not run into either.
-/
import MagnusPS5.Kernel.AddressSpaceSpec

namespace MagnusPS5.Kernel.GuestAddressSpace

open Lib
open Spanned (lo hi)
open GuestBackingStore Option MapEntry

/-- How the containers belong together. -/
structure Inv (s : GuestAddressSpace) : Prop where
  free : FreeWf s.m_free
  mapped : MappedWf s.m_mapped
  apart : ∀ x, Occupied s.m_free x → ¬ Occupied s.m_mapped x
  owned : ∀ x, Occupied s.m_free x ∨ Occupied s.m_mapped x → Occupied s.m_owned x
  store : s.m_backing.Wf
  backed : ∀ x, typeAt s.m_mapped x = some .backing ↔ Occupied s.m_backing.m_maps x
  nonzero : ∀ x, Occupied s.m_mapped x → 0 < x

/-- The same bytes are free, and the same bytes are mapped in the same way. -/
def SameBytes (s s' : GuestAddressSpace) : Prop :=
  (∀ x, Occupied s'.m_free x ↔ Occupied s.m_free x) ∧
    ∀ x, typeAt s'.m_mapped x = typeAt s.m_mapped x

theorem SameBytes.refl (s : GuestAddressSpace) : SameBytes s s := ⟨fun _ => .rfl, fun _ => rfl⟩

variable {s s' : GuestAddressSpace} {vaddr size : ℕ} {ok : Bool}

theorem Inv.with_host (h : Inv s) (host : Host) :
    Inv { s with m_backing := { s.m_backing with host } } :=
  ⟨h.free, h.mapped, h.apart, h.owned, h.store.with_host host, h.backed, h.nonzero⟩

/-! ## Taking bytes out of the free ones and giving them back -/

/-- `m_free` is what is left of the free blocks of `s` without the interval. -/
structure Taken (s : GuestAddressSpace) (vaddr size : ℕ) (m_free : List Run) : Prop where
  wf : FreeWf m_free
  pos : 0 < vaddr
  fits : vaddr + size ≤ UINT64_MAX
  was : ∀ x, vaddr ≤ x → x < vaddr + size → Occupied s.m_free x
  left : ∀ x, Occupied m_free x ↔ Occupied s.m_free x ∧ ¬ (vaddr ≤ x ∧ x < vaddr + size)

theorem Taken.of_consume (h : Inv s) (hin : Contained s.m_free vaddr size) {m_free : List Run}
    (heq : consumeUnlocked s.m_free vaddr size = (true, m_free)) : Taken s vaddr size m_free := by
  obtain ⟨hwf, -, -, htrue⟩ := consumeUnlocked_spec h.free hin heq
  obtain ⟨h1, h2, h3, h4⟩ := htrue rfl
  exact ⟨hwf, h1, h2, h3, h4⟩

variable {m_free : List Run}

theorem Taken.vacant (h : Inv s) (ht : Taken s vaddr size m_free) (x : ℕ) (h1 : vaddr ≤ x)
    (h2 : x < vaddr + size) : ¬ Occupied s.m_mapped x :=
  h.apart x (ht.was x h1 h2)

theorem Taken.store_vacant (h : Inv s) (ht : Taken s vaddr size m_free) :
    s.m_backing.Vacant vaddr size := by
  intro x h1 h2 hocc
  have htype := (h.backed x).mpr hocc
  refine ht.vacant h x h1 h2 (typeAt_ne_none.mp ?_)
  rw [htype]
  exact some_ne_none _

theorem Taken.giveBack (ht : Taken s vaddr size m_free) :
    FreeWf (addFreeUnlocked m_free vaddr size) ∧
      ∀ x, Occupied (addFreeUnlocked m_free vaddr size) x ↔ Occupied s.m_free x := by
  obtain ⟨hwf, hocc⟩ := addFreeUnlocked_vacant ht.wf ht.pos ht.fits fun x h1 h2 hx =>
    ((ht.left x).mp hx).2 ⟨h1, h2⟩
  refine ⟨hwf, fun x => ?_⟩
  rw [hocc x, ht.left x]
  constructor
  · rintro (hx | hx)
    · exact hx.1
    · exact ht.was x hx.1 hx.2
  · intro hx
    by_cases hin : vaddr ≤ x ∧ x < vaddr + size
    · exact .inr hin
    · exact .inl ⟨hx, hin⟩

variable {m_backing : GuestBackingStore}

theorem Taken.inv_giveBack (h : Inv s) (ht : Taken s vaddr size m_free)
    (hstore : m_backing.Wf) (hmaps : m_backing.m_maps = s.m_backing.m_maps) :
    Inv { s with m_free := addFreeUnlocked m_free vaddr size, m_backing } ∧
      SameBytes s { s with m_free := addFreeUnlocked m_free vaddr size, m_backing } := by
  obtain ⟨hwf, hocc⟩ := ht.giveBack
  refine ⟨⟨hwf, h.mapped, fun x hx => h.apart x ((hocc x).mp hx), fun x hx => ?_, hstore,
    fun x => ?_, h.nonzero⟩, hocc, fun _ => rfl⟩
  · exact h.owned x (hx.imp_left (hocc x).mp)
  · show _ ↔ Occupied m_backing.m_maps x
    rw [hmaps]
    exact h.backed x

variable {m_mapped : List MappedRegion}

theorem Taken.inv_mapped (h : Inv s) (ht : Taken s vaddr size m_free) {type : MappingType}
    (hwf : MappedWf m_mapped) (hview : ∀ x, typeAt m_mapped x =
      if vaddr ≤ x ∧ x < vaddr + size then some type else typeAt s.m_mapped x)
    (hstore : m_backing.Wf) (hmaps : ∀ x, Occupied m_backing.m_maps x ↔
      (type = .backing ∧ vaddr ≤ x ∧ x < vaddr + size) ∨ Occupied s.m_backing.m_maps x) :
    Inv { s with m_free, m_mapped, m_backing } := by
  have hocc : ∀ x, Occupied m_mapped x ↔
      (vaddr ≤ x ∧ x < vaddr + size) ∨ Occupied s.m_mapped x := by
    intro x
    rw [← typeAt_ne_none, hview x, ← typeAt_ne_none]
    by_cases hx : vaddr ≤ x ∧ x < vaddr + size
    · simp [hx]
    · simp [hx]
  refine ⟨ht.wf, hwf, fun x hx => ?_, fun x hx => ?_, hstore, fun x => ?_, fun x hx => ?_⟩
  · obtain ⟨hfree, hout⟩ := (ht.left x).mp hx
    rw [hocc x]
    rintro (hin | hm)
    · exact hout hin
    · exact h.apart x hfree hm
  · rcases hx with hx | hx
    · exact h.owned x (.inl ((ht.left x).mp hx).1)
    · rcases (hocc x).mp hx with hin | hm
      · exact h.owned x (.inl (ht.was x hin.1 hin.2))
      · exact h.owned x (.inr hm)
  · show typeAt m_mapped x = some .backing ↔ Occupied m_backing.m_maps x
    rw [hview x, hmaps x, ← h.backed x]
    by_cases hin : vaddr ≤ x ∧ x < vaddr + size
    · -- nothing was mapped at this address before
      have hnone : typeAt s.m_mapped x = none :=
        view_eq_none_iff.mpr (ht.vacant h x hin.1 hin.2)
      rw [if_pos hin, hnone]
      simp [hin]
    · rw [if_neg hin]
      simp [hin]
  · rcases (hocc x).mp hx with hin | hm
    · exact lt_of_lt_of_le ht.pos hin.1
    · exact h.nonzero x hm

/-! ## Mapping -/

variable {mode : Mode}

/-- **`MapBacking`** -/
theorem mapBacking_spec (h : Inv s) (hin : Contained s.m_free vaddr size) {backing_offset : ℕ}
    (heq : s.mapBacking vaddr size backing_offset mode = some (ok, s')) :
    Inv s' ∧ (ok = false → SameBytes s s') := by
  unfold mapBacking at heq
  cases hconsume : consumeUnlocked s.m_free vaddr size with
  | mk consumed m_free =>
    simp only [hconsume] at heq
    cases consumed with
    | false =>
      obtain ⟨-, -, hfalse, -⟩ := consumeUnlocked_spec h.free hin hconsume
      obtain rfl := hfalse rfl
      cases heq
      exact ⟨h, fun _ => .refl s⟩
    | true =>
      have ht := Taken.of_consume h hin hconsume
      obtain ⟨ok', b', hmap, hstore, -, hfalse, htrue⟩ :=
        mapExistingPlaceholderFixed_spec h.store backing_offset
          (hostMode mode) ht.fits (ht.store_vacant h)
      simp only [hmap, if_true] at heq
      cases ok' with
      | false =>
        cases heq
        obtain ⟨h1, h2⟩ := ht.inv_giveBack h hstore (hfalse rfl)
        exact ⟨h1, fun _ => h2⟩
      | true =>
        obtain ⟨hrange, hview⟩ := htrue rfl
        have hsize : 0 < size := by
          unfold rangeOk at hrange
          rw [decide_eq_true_eq] at hrange
          exact Nat.pos_of_ne_zero hrange.1
        obtain ⟨m_mapped, hadd, hwf, htype⟩ := addMappedUnlocked_vacant h.mapped .backing
          hsize ht.fits (ht.vacant h)
        simp only [hadd, map_some, some.injEq, Prod.mk.injEq] at heq
        obtain ⟨rfl, rfl⟩ := heq
        refine ⟨ht.inv_mapped h hwf htype hstore fun x => ?_, nofun⟩
        have hx : view attr b'.m_maps x = _ := hview x
        rw [← view_entry_ne_none, hx, ← view_entry_ne_none]
        by_cases hspan : vaddr ≤ x ∧ x < vaddr + size
        · simp [hspan]
        · simp [hspan]

/-- The end of **`Commit`** maps the interval if the host lets it, and else gives it
back. -/
theorem commitConsumed_spec (h : Inv s) (ht : Taken s vaddr size m_free)
    (heq : commitConsumed { s with m_free } vaddr size mode = some (ok, s')) :
    Inv s' ∧ (ok = false → SameBytes s s' ∧ s.m_backing.host.outcome 0 = false) := by
  unfold commitConsumed at heq
  cases hprotect : s.m_backing.host.protect vaddr size (hostMode mode) with
  | mk protected_ host =>
    have hout : protected_ = s.m_backing.host.outcome 0 := congrArg Prod.fst hprotect.symm
    simp only [hprotect] at heq
    cases protected_ with
    | false =>
      cases heq
      obtain ⟨h1, h2⟩ := ht.inv_giveBack h (h.store.with_host host) rfl
      exact ⟨h1, fun _ => ⟨h2, hout.symm⟩⟩
    | true =>
      simp only [if_true, map_eq_some_iff, Prod.mk.injEq] at heq
      obtain ⟨m_mapped, hadd, rfl, rfl⟩ := heq
      by_cases hsize : size = 0
      · -- an empty interval is not accepted as a region
        unfold addMappedUnlocked at hadd
        rw [if_pos (.inl hsize)] at hadd
        nomatch hadd
      · obtain ⟨m', hadd', hwf, htype⟩ := addMappedUnlocked_vacant h.mapped .private_
          (Nat.pos_of_ne_zero hsize) ht.fits (ht.vacant h)
        obtain rfl : m' = m_mapped := some.inj (hadd'.symm.trans hadd)
        refine ⟨ht.inv_mapped h hwf htype (h.store.with_host host) fun x => ?_, nofun⟩
        exact (or_iff_right fun hf => nomatch hf.1).symm

/-! ## Claiming pages of the host -/

/-- The pages that `ClaimFixedUnlocked` takes from the host. -/
def claimedRun (vaddr size : ℕ) : Run :=
  ⟨alignDown vaddr PageSize,
    subU64 (alignUp (addU64 vaddr size) PageSize) (alignDown vaddr PageSize)⟩

/-- Claiming the pages around the interval does no harm: the host refuses; or they begin
at address 0, which is never entered; or they are an interval that does not wrap, no
byte of it is mapped, the one free block that it may meet starts where it starts, and the
host then lets the pages be used. -/
def ClaimOk (s : GuestAddressSpace) (vaddr size : ℕ) : Prop :=
  let run := claimedRun vaddr size
  s.m_backing.host.outcome 0 = false ∨ run.start = 0 ∨ run.size = 0 ∨
    (0 < size ∧ vaddr + size ≤ UINT64_MAX ∧ hi run ≤ UINT64_MAX ∧
      (∀ r ∈ s.m_mapped, hi run ≤ lo r ∨ hi r ≤ lo run) ∧
      (∀ b ∈ s.m_free, b.start = run.start ∨ hi run ≤ lo b ∨ hi b ≤ lo run) ∧
      s.m_backing.host.outcome 1 = true)

theorem claimedRun_holds (hspan : vaddr + size ≤ UINT64_MAX)
    (hrun : hi (claimedRun vaddr size) ≤ UINT64_MAX) (hstart : (claimedRun vaddr size).start ≠ 0) :
    lo (claimedRun vaddr size) ≤ vaddr ∧ vaddr + size ≤ hi (claimedRun vaddr size) := by
  have hdown : alignDown vaddr PageSize ≤ vaddr := Nat.sub_le _ _
  have hlo : lo (claimedRun vaddr size) = alignDown vaddr PageSize := rfl
  have hhi : hi (claimedRun vaddr size) = alignDown vaddr PageSize +
      subU64 (alignUp (vaddr + size) PageSize) (alignDown vaddr PageSize) := by
    rw [← addU64_of_le hspan]
    rfl
  have hpos : 0 < alignDown vaddr PageSize := Nat.pos_of_ne_zero hstart
  rw [hlo]
  rw [hhi] at hrun ⊢
  have hup : alignUp (vaddr + size) PageSize = 0 ∨ (vaddr + size ≤ alignUp (vaddr + size) PageSize
      ∧ alignUp (vaddr + size) PageSize ≤ UINT64_MAX) := by
    unfold alignUp
    rw [if_neg (by decide)]
    dsimp only
    generalize (if (vaddr + size) % PageSize ≠ 0 then PageSize - (vaddr + size) % PageSize
      else 0) = increment
    split
    · right
      omega
    · exact .inl rfl
  rcases hup with hup | ⟨hup, hle⟩
  · -- rounding up ran over: the difference wraps
    have hmax : UINT64_MAX = 18446744073709551615 := rfl
    rw [hup] at hrun
    unfold subU64 at hrun
    omega
  · rw [subU64_of_le (by omega) hle]
    omega

theorem findContaining_isSome (h : FreeWf m_free) (hsize : 0 < size)
    (hall : ∀ x, vaddr ≤ x → x < vaddr + size → Occupied m_free x) :
    (findContaining m_free vaddr size).isSome := by
  obtain ⟨b, hb, hlo, hhi⟩ := h.canonical.exists_block (s := vaddr) (e := vaddr + size)
    (by omega) hall
  rw [findContaining_of_inside h hb hsize hlo hhi]
  rfl

theorem claimed_free (h : Inv s) (hnone : findContaining s.m_free vaddr size = none)
    (hsize : 0 < size) (hspan : vaddr + size ≤ UINT64_MAX)
    (hrun : hi (claimedRun vaddr size) ≤ UINT64_MAX)
    (hstart : (claimedRun vaddr size).start ≠ 0) (hsz : (claimedRun vaddr size).size ≠ 0)
    (hfree : ∀ b ∈ s.m_free, b.start = (claimedRun vaddr size).start ∨
      hi (claimedRun vaddr size) ≤ lo b ∨ hi b ≤ lo (claimedRun vaddr size)) :
    let run := claimedRun vaddr size
    FreeWf (addFreeUnlocked s.m_free run.start run.size) ∧
      ∀ x, Occupied (addFreeUnlocked s.m_free run.start run.size) x ↔
        Occupied s.m_free x ∨ Covers run x := by
  obtain ⟨hlo, hhi⟩ := claimedRun_holds hspan hrun hstart
  obtain ⟨h1, -, -, h4⟩ := addFreeUnlocked_spec h.free.canonical h.free.fits
    (Nat.pos_of_ne_zero hstart) (Nat.pos_of_ne_zero hsz) hrun fun b hb => by
      rcases hfree b hb with hb' | hb'
      · refine .inl ⟨hb', ?_⟩
        by_contra hbig
        -- a longer block with that start would hold the interval
        have hlo' : (claimedRun vaddr size).start ≤ vaddr := hlo
        have hhi' : vaddr + size ≤
          (claimedRun vaddr size).start + (claimedRun vaddr size).size := hhi
        have hfound := findContaining_of_inside h.free hb hsize (by omega)
          (show vaddr + size ≤ b.start + b.size by omega)
        rw [hnone] at hfound
        nomatch hfound
      · exact .inr hb'
  refine ⟨⟨h1, fun x hx => ?_⟩, h4⟩
  rcases (h4 x).mp hx with hx | hx
  · exact h.free.bounded x hx
  · have hrun' : (claimedRun vaddr size).start + (claimedRun vaddr size).size ≤ UINT64_MAX := hrun
    omega

theorem claimFixedUnlocked_cases {claimed : Bool}
    (heq : s.claimFixedUnlocked vaddr size = (claimed, s')) :
    ∃ host : Host, claimed = s.m_backing.host.outcome 0 ∧
      host.outcome 0 = s.m_backing.host.outcome 1 ∧
      (claimed = false → s' = { s with m_backing := { s.m_backing with host } }) ∧
      (claimed = true → s' =
        { s with
          m_free := addFreeUnlocked s.m_free (claimedRun vaddr size).start
            (claimedRun vaddr size).size
          m_owned := s.m_owned ++ [claimedRun vaddr size]
          m_backing := { s.m_backing with host } }) := by
  refine ⟨(s.m_backing.host.mapAnonymous (claimedRun vaddr size).start
    (claimedRun vaddr size).size).2, ?_⟩
  unfold claimFixedUnlocked at heq
  by_cases hout : s.m_backing.host.outcome 0 = true
  · have hcalled : (s.m_backing.host.mapAnonymous (claimedRun vaddr size).start
        (claimedRun vaddr size).size).1 = true := hout
    have hcalled' : (s.m_backing.host.mapAnonymous (alignDown vaddr PageSize)
        (subU64 (alignUp (addU64 vaddr size) PageSize) (alignDown vaddr PageSize))).1 = true :=
      hcalled
    simp only [hcalled', if_true, Prod.mk.injEq] at heq
    obtain ⟨rfl, rfl⟩ := heq
    exact ⟨hout.symm, rfl, fun hf => absurd hf (by simp), fun _ => rfl⟩
  · have hout' : s.m_backing.host.outcome 0 = false := Bool.not_eq_true _ ▸ hout
    have hcalled' : (s.m_backing.host.mapAnonymous (alignDown vaddr PageSize)
        (subU64 (alignUp (addU64 vaddr size) PageSize) (alignDown vaddr PageSize))).1 = false :=
      hout'
    simp only [hcalled', Bool.false_eq_true, if_false, Prod.mk.injEq] at heq
    obtain ⟨rfl, rfl⟩ := heq
    exact ⟨hout'.symm, rfl, fun _ => rfl, nofun⟩

section

variable (h : Inv s)

include h

theorem Inv.with_owned (run : Run) : Inv { s with m_owned := s.m_owned ++ [run] } :=
  ⟨h.free, h.mapped, h.apart, fun x hx => occupied_append.mpr (.inl (h.owned x hx)), h.store,
    h.backed, h.nonzero⟩

theorem Inv.claimed {run : Run} (hwf : FreeWf m_free)
    (hocc : ∀ x, Occupied m_free x ↔ Occupied s.m_free x ∨ Covers run x)
    (hmapped : ∀ r ∈ s.m_mapped, hi run ≤ lo r ∨ hi r ≤ lo run) :
    Inv { s with m_free, m_owned := s.m_owned ++ [run] } := by
  refine ⟨hwf, h.mapped, fun x hx => ?_, fun x hx => ?_, h.store, h.backed, h.nonzero⟩
  · rcases (hocc x).mp hx with hx | ⟨h1, h2⟩
    · exact h.apart x hx
    · rintro ⟨r, hr, h3, h4⟩
      rcases hmapped r hr with h' | h' <;> omega
  · refine occupied_append.mpr ?_
    rcases hx with hx | hx
    · rcases (hocc x).mp hx with hx | hx
      · exact .inl (h.owned x (.inl hx))
      · exact .inr ⟨run, List.mem_singleton_self run, hx⟩
    · exact .inl (h.owned x (.inr hx))

/-- **`Commit`** -/
theorem commit_spec (hin : Contained s.m_free vaddr size)
    (hclaim : findContaining s.m_free vaddr size = none → ClaimOk s vaddr size)
    (heq : s.commit vaddr size mode = some (ok, s')) : Inv s' ∧ (ok = false → SameBytes s s') := by
  unfold commit at heq
  rcases hconsume : consumeUnlocked s.m_free vaddr size with ⟨consumed, m_free⟩
  simp only [hconsume] at heq
  obtain ⟨-, hiff, hfalse, -⟩ := consumeUnlocked_spec h.free hin hconsume
  cases consumed with
  | true =>
    obtain ⟨h1, h2⟩ := commitConsumed_spec h (.of_consume h hin hconsume) heq
    exact ⟨h1, fun hok => (h2 hok).1⟩
  | false =>
    obtain rfl := hfalse rfl
    have hnone : findContaining s.m_free vaddr size = none := by
      rw [← not_isSome_iff_eq_none, ← hiff]
      simp
    rcases hfixed : s.claimFixedUnlocked vaddr size with ⟨claimed, s1⟩
    obtain ⟨host, hout, hnext, hrefused, hgranted⟩ := claimFixedUnlocked_cases hfixed
    simp only [hfixed, Bool.false_eq_true, if_false] at heq
    cases claimed with
    | false =>
      obtain rfl := hrefused rfl
      cases heq
      exact ⟨h.with_host host, fun _ => .refl s⟩
    | true =>
      -- pages at address 0, or none at all, are not entered
      have hskip : (claimedRun vaddr size).start = 0 ∨ (claimedRun vaddr size).size = 0 →
          Inv s' ∧ (ok = false → SameBytes s s') := by
        intro hzero
        have hsame : addFreeUnlocked s.m_free (claimedRun vaddr size).start
            (claimedRun vaddr size).size = s.m_free := if_pos hzero
        rw [hsame] at hgranted
        obtain rfl := hgranted rfl
        simp only [hconsume, Bool.false_eq_true, if_false] at heq
        cases heq
        exact ⟨(h.with_host host).with_owned _, fun _ => .refl s⟩
      by_cases hzero : (claimedRun vaddr size).start = 0 ∨ (claimedRun vaddr size).size = 0
      · exact hskip hzero
      · rcases hclaim hnone with hf | hf | hf | ⟨hsize, hspan, hrun, hmapped, hfree, hlast⟩
        · rw [← hout] at hf
          nomatch hf
        · exact absurd (.inl hf) hzero
        · exact absurd (.inr hf) hzero
        · have hstart := not_or.mp hzero
          obtain ⟨hwf, hocc⟩ :=
            claimed_free h hnone hsize hspan hrun hstart.1 hstart.2 hfree
          obtain ⟨hlo, hhi⟩ := claimedRun_holds hspan hrun hstart.1
          obtain rfl := hgranted rfl
          have h₁ := (h.claimed hwf hocc hmapped).with_host host
          generalize addFreeUnlocked s.m_free (claimedRun vaddr size).start
            (claimedRun vaddr size).size = entered at heq hwf hocc h₁
          have hin1 : Contained entered vaddr size := fun it hit =>
            ⟨hspan, fun hf => by omega⟩
          rcases hconsume1 : consumeUnlocked entered vaddr size with ⟨consumed, m_free⟩
          -- the interval is free now, so it is found
          have hfound : consumed = true := by
            refine (consumeUnlocked_spec hwf hin1 hconsume1).2.1.mpr
              (findContaining_isSome hwf hsize fun x h1 h2 => (hocc x).mpr (.inr ?_))
            exact ⟨hlo.trans h1, lt_of_lt_of_le h2 hhi⟩
          obtain rfl := hfound
          simp only [hconsume1, if_true] at heq
          obtain ⟨h2, h3⟩ := commitConsumed_spec h₁ (.of_consume h₁ hin1 hconsume1) heq
          refine ⟨h2, fun hok => ?_⟩
          have hrefused : host.outcome 0 = false := (h3 hok).2
          rw [hnext, hlast] at hrefused
          nomatch hrefused

/-! ## Unmapping -/

theorem Inv.released {type : MappingType} (hsize : 0 < size) (hspan : vaddr + size ≤ UINT64_MAX)
    (hall : ∀ x, vaddr ≤ x → x < vaddr + size → typeAt s.m_mapped x = some type)
    (hwf : MappedWf m_mapped) (hview : ∀ x, typeAt m_mapped x =
      if vaddr ≤ x ∧ x < vaddr + size then none else typeAt s.m_mapped x)
    (hstore : m_backing.Wf) (hmaps : ∀ x, Occupied m_backing.m_maps x ↔
      Occupied s.m_backing.m_maps x ∧ ¬ (type = .backing ∧ vaddr ≤ x ∧ x < vaddr + size)) :
    Inv { s with m_free := addFreeUnlocked s.m_free vaddr size, m_mapped, m_backing } := by
  have hwas : ∀ x, vaddr ≤ x → x < vaddr + size → Occupied s.m_mapped x := by
    intro x h1 h2
    rw [← typeAt_ne_none, hall x h1 h2]
    exact some_ne_none _
  have hocc : ∀ x, Occupied m_mapped x ↔
      Occupied s.m_mapped x ∧ ¬ (vaddr ≤ x ∧ x < vaddr + size) := by
    intro x
    rw [← typeAt_ne_none, hview x, ← typeAt_ne_none]
    by_cases hx : vaddr ≤ x ∧ x < vaddr + size
    · simp [hx]
    · simp [hx]
  obtain ⟨hfree, hback⟩ := addFreeUnlocked_vacant h.free
    (h.nonzero vaddr (hwas vaddr le_rfl (by omega))) hspan
    fun x h1 h2 hx => h.apart x hx (hwas x h1 h2)
  refine ⟨hfree, hwf, fun x hx => ?_, fun x hx => ?_, hstore, fun x => ?_,
    fun x hx => h.nonzero x ((hocc x).mp hx).1⟩
  · rw [hocc x]
    rintro ⟨hm, hout⟩
    rcases (hback x).mp hx with hx | hx
    · exact h.apart x hx hm
    · exact hout hx
  · rcases hx with hx | hx
    · rcases (hback x).mp hx with hx | hx
      · exact h.owned x (.inl hx)
      · exact h.owned x (.inr (hwas x hx.1 hx.2))
    · exact h.owned x (.inr ((hocc x).mp hx).1)
  · show typeAt m_mapped x = some .backing ↔ Occupied m_backing.m_maps x
    rw [hview x, hmaps x, ← h.backed x]
    by_cases hin : vaddr ≤ x ∧ x < vaddr + size
    · rw [if_pos hin, hall x hin.1 hin.2]
      simp [hin]
    · rw [if_neg hin]
      simp [hin]

theorem unmapBacking_spec (heq : s.unmapBacking vaddr size = some (ok, s')) :
    Inv s' ∧ (ok = false → SameBytes s s') := by
  unfold unmapBacking at heq
  by_cases hmapped : containsMappedUnlocked s.m_mapped vaddr size .backing = true
  · obtain ⟨hsize, hspan, hall⟩ := (containsMappedUnlocked_iff h.mapped).mp hmapped
    rw [if_pos hmapped] at heq
    cases hunmap : s.m_backing.unmap vaddr size with
    | none =>
      simp only [hunmap] at heq
      nomatch heq
    | some result =>
      obtain ⟨unmapped, b'⟩ := result
      obtain ⟨hstore, -, htrue, hfalse⟩ := unmap_spec h.store hunmap
      simp only [hunmap] at heq
      cases unmapped with
      | false =>
        cases heq
        refine ⟨⟨h.free, h.mapped, h.apart, h.owned, hstore, fun x => ?_, h.nonzero⟩,
          fun _ => .refl _⟩
        have hx : view attr b'.m_maps x = view attr s.m_backing.m_maps x :=
          hfalse rfl x
        rw [← view_entry_ne_none, hx, view_ne_none_iff]
        exact h.backed x
      | true =>
        obtain ⟨m_mapped, hremove, hwf, hview⟩ := removeMappedUnlocked_spec h.mapped hmapped
        simp only [hremove] at heq
        cases heq
        refine ⟨h.released hsize hspan hall hwf hview hstore fun x => ?_, nofun⟩
        have hx : view attr b'.m_maps x = _ := (htrue rfl).2 x
        rw [← view_entry_ne_none, hx, ← view_entry_ne_none]
        by_cases hin : vaddr ≤ x ∧ x < vaddr + size
        · simp [hin]
        · simp [hin]
  · rw [if_neg hmapped] at heq
    cases heq
    exact ⟨h, fun _ => .refl _⟩

theorem releaseCommitted_spec (heq : s.releaseCommitted vaddr size = some (ok, s')) :
    Inv s' ∧ (ok = false → SameBytes s s') := by
  unfold releaseCommitted at heq
  split at heq
  · cases heq
    exact ⟨h, fun _ => .refl _⟩
  · by_cases hmapped : containsMappedUnlocked s.m_mapped vaddr size .private_ = true
    · obtain ⟨hsize, hspan, hall⟩ := (containsMappedUnlocked_iff h.mapped).mp hmapped
      obtain ⟨m_mapped, hremove, hwf, hview⟩ := removeMappedUnlocked_spec h.mapped hmapped
      rw [if_pos hmapped] at heq
      cases hwalk : walk (findMappedContainingUnlocked s.m_mapped) s.m_mapped.length vaddr
          (vaddr + size) with
      | none =>
        simp only [hwalk] at heq
        nomatch heq
      | some regions =>
        cases hrestore : restorePlaceholders regions s.m_backing.host with
        | none =>
          simp only [hwalk, hrestore] at heq
          nomatch heq
        | some host =>
          simp only [hwalk, hrestore, hremove] at heq
          cases heq
          refine ⟨h.released hsize hspan hall hwf hview (h.store.with_host host) fun x => ?_, nofun⟩
          exact (and_iff_left fun hf => nomatch hf.1).symm
    · rw [if_neg hmapped] at heq
      cases heq
      exact ⟨h, fun _ => .refl _⟩

end

/-! ## Runs -/

/-- The four operations. -/
inductive Op
  | mapBacking (vaddr size backing_offset : ℕ) (mode : Mode)
  | unmapBacking (vaddr size : ℕ)
  | commit (vaddr size : ℕ) (mode : Mode)
  | releaseCommitted (vaddr size : ℕ)

/-- One operation: its result and the state after it, unless it aborts. -/
def step (s : GuestAddressSpace) : Op → Option (Bool × GuestAddressSpace)
  | .mapBacking vaddr size backing_offset mode => s.mapBacking vaddr size backing_offset mode
  | .unmapBacking vaddr size => s.unmapBacking vaddr size
  | .commit vaddr size mode => s.commit vaddr size mode
  | .releaseCommitted vaddr size => s.releaseCommitted vaddr size

/-- The state after a sequence of operations, unless one of them aborts. -/
def run (s : GuestAddressSpace) : List Op → Option GuestAddressSpace
  | [] => some s
  | op :: ops => (step s op).bind fun result => run result.2 ops

/-- The operation does not run into the containment test that goes wrong, nor take pages
from the host that it must not take. -/
def StepOk (s : GuestAddressSpace) : Op → Prop
  | .mapBacking vaddr size _ _ => Contained s.m_free vaddr size
  | .commit vaddr size _ => Contained s.m_free vaddr size ∧
      (findContaining s.m_free vaddr size = none → ClaimOk s vaddr size)
  | .unmapBacking .. | .releaseCommitted .. => True

/-- Every operation of the run meets the condition in the state it starts in. -/
def RunOk (s : GuestAddressSpace) : List Op → Prop
  | [] => True
  | op :: ops => StepOk s op ∧ ∀ result, step s op = some result → RunOk result.2 ops

instance (m_free : List Run) (vaddr size : ℕ) : Decidable (Contained m_free vaddr size) :=
  decidable_of_iff (∀ it ∈ findContaining m_free vaddr size,
    vaddr + size ≤ UINT64_MAX ∧ (size = 0 → vaddr = it.start + it.size)) .rfl

instance (s : GuestAddressSpace) (vaddr size : ℕ) : Decidable (ClaimOk s vaddr size) :=
  inferInstanceAs (Decidable (_ ∨ _ ∨ _ ∨ _))

instance (s : GuestAddressSpace) (op : Op) : Decidable (StepOk s op) :=
  match op with
  | .mapBacking vaddr size _ _ => inferInstanceAs (Decidable (Contained s.m_free vaddr size))
  | .commit vaddr size _ =>
    inferInstanceAs (Decidable (Contained s.m_free vaddr size ∧
      (findContaining s.m_free vaddr size = none → ClaimOk s vaddr size)))
  | .unmapBacking .. | .releaseCommitted .. => isTrue trivial

instance instDecidableRunOk : ∀ (s : GuestAddressSpace) (ops : List Op), Decidable (RunOk s ops)
  | _, [] => isTrue trivial
  | s, op :: ops =>
    have : DecidablePred fun result : Bool × GuestAddressSpace => RunOk result.2 ops :=
      fun result => instDecidableRunOk result.2 ops
    decidable_of_iff (StepOk s op ∧ ∀ result ∈ step s op, RunOk result.2 ops) .rfl

/-- **One step.** -/
theorem step_spec (h : Inv s) {op : Op} (hop : StepOk s op) (heq : step s op = some (ok, s')) :
    Inv s' ∧ (ok = false → SameBytes s s') := by
  cases op with
  | mapBacking vaddr size backing_offset mode => exact mapBacking_spec h hop heq
  | unmapBacking vaddr size => exact unmapBacking_spec h heq
  | commit vaddr size mode => exact commit_spec h hop.1 hop.2 heq
  | releaseCommitted vaddr size => exact releaseCommitted_spec h heq

theorem inv_run (h : Inv s) {ops : List Op} (hops : RunOk s ops) (heq : run s ops = some s') :
    Inv s' := by
  induction ops generalizing s with
  | nil => exact some.inj heq ▸ h
  | cons op ops ih =>
    obtain ⟨hop, hrest⟩ := hops
    obtain ⟨⟨ok, s1⟩, hstep, hrun⟩ := bind_eq_some_iff.mp heq
    exact ih (step_spec h hop hstep).1 (hrest _ hstep) hrun

/-- The ranges that the host grants at the start: disjoint, and clear of address 0 and of
the last address. -/
structure Granted (ranges : List Run) : Prop where
  apart : Apart ranges
  fits : ∀ r ∈ ranges, 0 < r.start ∧ r.start + r.size ≤ UINT64_MAX

theorem inv_reserveRange (h : Inv s) {range : Run} (hpos : 0 < range.start)
    (hfit : range.start + range.size ≤ UINT64_MAX) (hmapped : s.m_mapped = [])
    (hclear : ∀ x, Covers range x → ¬ Occupied s.m_free x) :
    Inv (s.reserveRange range) ∧ (s.reserveRange range).m_mapped = [] ∧
      ∀ x, Occupied (s.reserveRange range).m_free x ↔ Occupied s.m_free x ∨ Covers range x := by
  obtain ⟨hwf, hocc⟩ := addFreeUnlocked_vacant h.free hpos hfit fun x h1 h2 =>
    hclear x ⟨h1, h2⟩
  refine ⟨h.claimed hwf hocc fun r hr => ?_, hmapped, hocc⟩
  rw [hmapped] at hr
  nomatch hr

theorem inv_init {ranges : List Run} (hranges : Granted ranges) (backing_size : ℕ) (host : Host) :
    Inv (init ranges backing_size host) := by
  suffices key : ∀ (ranges : List Run) (s : GuestAddressSpace), Inv s → s.m_mapped = [] →
      Granted ranges → (∀ r ∈ ranges, ∀ x, Covers r x → ¬ Occupied s.m_free x) →
      Inv (ranges.foldl reserveRange s) by
    refine key ranges _ ⟨⟨canonical_nil, fun x hx => absurd hx (occupied_nil x)⟩,
      ⟨List.Pairwise.nil, fun _ hb => absurd hb List.not_mem_nil,
        fun x hx => absurd hx (occupied_nil x)⟩, fun x hx => absurd hx (occupied_nil x),
      fun x hx => ?_, ⟨List.Pairwise.nil, fun _ hb => absurd hb List.not_mem_nil,
        nofun⟩, fun x => ?_,
      fun x hx => absurd hx (occupied_nil x)⟩ rfl hranges
      fun _ _ x _ => occupied_nil x
    · rcases hx with hx | hx <;> exact absurd hx (occupied_nil x)
    · exact iff_of_false (by simp) (occupied_nil x)
  intro ranges
  induction ranges with
  | nil => exact fun s h _ _ _ => h
  | cons range ranges ih =>
    intro s h hmapped hgranted hclear
    obtain ⟨hapart, hrest⟩ := apart_cons.mp hgranted.apart
    obtain ⟨hpos, hfit⟩ := hgranted.fits range List.mem_cons_self
    obtain ⟨h1, h2, h3⟩ := inv_reserveRange h hpos hfit hmapped (hclear range List.mem_cons_self)
    refine ih _ h1 h2 ⟨hrest, fun r hr => hgranted.fits r (.tail _ hr)⟩ fun r hr x hx hocc => ?_
    rcases (h3 x).mp hocc with hocc | ⟨h4, h5⟩
    · exact hclear r (.tail _ hr) x hx hocc
    · obtain ⟨h6, h7⟩ := hx
      rcases hapart r hr with h' | h' <;> omega

/-- **The accounting of the address space.** In a run whose steps all meet the condition,
the containers belong together in every state reached, and a step that returns `false`
changes neither the free nor the mapped bytes. -/
theorem addressSpace_accounting {ranges : List Run} (hranges : Granted ranges)
    (backing_size : ℕ) (host : Host) {ops : List Op}
    (hops : RunOk (init ranges backing_size host) ops) {s : GuestAddressSpace}
    (hrun : run (init ranges backing_size host) ops = some s) :
    Inv s ∧ ∀ op s', StepOk s op → step s op = some (false, s') → SameBytes s s' := by
  have hinv := inv_run (inv_init hranges backing_size host) hops hrun
  exact ⟨hinv, fun op s' hop hstep => (step_spec hinv hop hstep).2 rfl⟩

/-- A host that grants every call. -/
def grantingHost : Host := { outcome := fun _ => true, memory := fun _ => .unmapped }

/-- Pages of both kinds mapped next to each other, and taken away again in parts. -/
theorem addressSpace_accounting_run :
    (run (init [⟨0x1000000000, 0x10000⟩] 0x10000 grantingHost)
      [.commit 0x1000004000 0x4000 .readWrite, .mapBacking 0x1000008000 0x8000 0 .read,
        .unmapBacking 0x100000C000 0x4000, .releaseCommitted 0x1000004000 0x4000]).isSome ∧
    ∀ s, run (init [⟨0x1000000000, 0x10000⟩] 0x10000 grantingHost)
      [.commit 0x1000004000 0x4000 .readWrite, .mapBacking 0x1000008000 0x8000 0 .read,
        .unmapBacking 0x100000C000 0x4000, .releaseCommitted 0x1000004000 0x4000] = some s →
      Inv s :=
  ⟨by decide, fun _ hrun =>
    (addressSpace_accounting ⟨List.pairwise_singleton _ _, by decide⟩ 0x10000 grantingHost
      (by decide) hrun).1⟩

/-- `Commit` of an interval half of which lies before the owned pages leaves the other
half both free and mapped. `MapBacking` of the empty interval in the middle of a block
fails, and the rest of the block is no longer free. -/
theorem addressSpace_straddle :
    (∃ s, run (init [⟨0x1000000000, 0x8000⟩] 0 grantingHost)
        [.commit 0xFFFFFC000 0x8000 .readWrite] = some s ∧
      ¬ ∀ x, Occupied s.m_free x → ¬ Occupied s.m_mapped x) ∧
    ∃ s', step (init [⟨0x1000000000, 0x8000⟩] 0 grantingHost)
        (.mapBacking 0x1000004000 0 0 .readWrite) = some (false, s') ∧
      ¬ SameBytes (init [⟨0x1000000000, 0x8000⟩] 0 grantingHost) s' := by
  refine ⟨⟨_, rfl, fun h => h 0x1000000000 (by decide) (by decide)⟩, _, rfl, fun h => ?_⟩
  have hfree := (h.1 0x1000004000).mpr (by decide)
  revert hfree
  decide

end MagnusPS5.Kernel.GuestAddressSpace
