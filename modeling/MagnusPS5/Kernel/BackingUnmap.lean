/-
`GuestBackingStore::Unmap` (`memoryAddressSpace.inc`) and the host: what the guest
can do with its pages after a call that failed half-way, on Linux.

The table of views says with which mode a view was mapped. A later change of the
protection goes to the host alone, so the mode of a view is not the protection of
its pages. Rolling back maps the parts that are gone with that mode: a failed call
leaves every page as it was exactly if the pages it had unmapped still have it. A
call that succeeds unmaps whole host pages, and so leaves what it should leave only
if its interval is made of them.
-/
import MagnusPS5.Kernel.Mprotect

namespace MagnusPS5.Kernel

open Lib
open Spanned (lo hi)
open List Option GuestAddressSpace Nat

variable {after : ℕ → HostByte}

theorem Host.call_memory {h : Host} (hok : h.outcome 0 = true) :
    (h.call after).2.memory = after := if_pos hok

theorem Host.call_refused {h : Host} (hno : h.outcome 0 = false) :
    (h.call after).2.memory = h.memory := if_neg (by rw [hno]; exact nofun)

/-- The address lies on a host page that the entry touches. -/
abbrev MapEntry.OnPages (e : MapEntry) (x : ℕ) : Prop := Host.OnPages e.vaddr e.size x

namespace GuestBackingStore

variable (b : GuestBackingStore)

/-- What the guest has at an address that is mapped: the backing byte of the table, and
what the host shows there. -/
def effectiveAt (x : ℕ) : Option (ℕ × HostByte) :=
  (b.byteAt x).map fun shown => (shown.1, b.host.memory x)

/-- The views are live: they are made of whole host pages, and the host shows the byte
of the backing file that the table says, under some protection. -/
structure Live (b : GuestBackingStore) : Prop where
  wf : Wf b
  pages : ∀ e ∈ b.m_maps, e.vaddr % 4096 = 0 ∧ e.size % 4096 = 0
  shown : ∀ e ∈ b.m_maps, ∀ x, Covers e x →
    ∃ prot, b.host.memory x = .shared prot (e.backing_offset + (x - e.vaddr))

/-- The first loop of `Unmap`: the parts of the interval that lie in one view each. -/
def targets (vaddr size : ℕ) : Option (List MapEntry) :=
  if size = 0 ∨ UINT64_MAX - vaddr < size then none
  else
    (walk (fun current => b.findContainingUnlocked current 1) b.m_maps.length vaddr
      (vaddr + size)).map (List.map target)

/-- A call that fails leaves the offset and the host's page at every address as they
were; one that succeeds takes exactly the interval away. -/
structure Atomic (b b' : GuestBackingStore) (vaddr size : ℕ) (ok : Bool) : Prop where
  failed : ok = false → ∀ x, b'.effectiveAt x = b.effectiveAt x
  done : ok = true → ∀ x,
    b'.effectiveAt x = if vaddr ≤ x ∧ x < vaddr + size then none else b.effectiveAt x

/-- When the host accepts every part, the interval is made of whole pages; when it
refuses one, the pages of the parts before it have the mode they were mapped with. -/
def Undoable (vaddr size : ℕ) : Prop :=
  ∀ parts, b.targets vaddr size = some parts →
    ((∀ k < parts.length, b.host.outcome k = true) → vaddr % 4096 = 0 ∧ size % 4096 = 0) ∧
    ∀ k < parts.length, b.host.outcome k = false → (∀ i < k, b.host.outcome i = true) →
      ∀ e ∈ parts.take k, ∀ x, e.OnPages x → (b.host.memory x).mode = e.mode

variable {b : GuestBackingStore}

/-! ## The host calls of one step -/

variable {b' : GuestBackingStore} {e s : ℕ} {parts : List (MapEntry × ℕ × ℕ)}

/-- **`UnmapOne`** of an interval in one view is one call of the host. -/
theorem unmapOne_host (h : Wf b) {e : MapEntry} (hsize : 0 < e.size) (he : Held b.m_maps e)
    {ok : Bool} (hone : b.unmapOne e.vaddr e.size = some (ok, b')) :
    ok = b.host.outcome 0 ∧ b'.host = (b.host.mapAnonymous e.vaddr e.size).2 := by
  obtain ⟨old, hold, hstart, hend, -⟩ := he
  have hmatch := h.floor_match hsize hold hstart hend
  unfold unmapOne at hone
  rw [hmatch] at hone
  dsimp only at hone
  rw [if_neg (by omega)] at hone
  have hcall : (b.host.mapAnonymous e.vaddr e.size).1 = b.host.outcome 0 := rfl
  split at hone
  next hok =>
    obtain ⟨m_maps, -, hresult⟩ := map_eq_some_iff.mp hone
    cases hresult
    exact ⟨(hcall.symm.trans hok).symm, rfl⟩
  next hok =>
    cases hone
    exact ⟨(hcall.symm.trans (Bool.eq_false_iff.mpr hok)).symm, rfl⟩

/-- **`MapExistingPlaceholderFixed`** that succeeds is one call of the host. -/
theorem mapExisting_host {vaddr size backing_offset : ℕ} {mode : Mode}
    (hmap : b.mapExistingPlaceholderFixed vaddr size backing_offset mode = some (true, b')) :
    ∀ x, b'.host.memory x = if Host.OnPages vaddr size x then
      .shared mode (backing_offset + x - vaddr) else b.host.memory x := by
  unfold mapExistingPlaceholderFixed at hmap
  split at hmap
  · dsimp only at hmap
    split at hmap
    next hok =>
      obtain ⟨m_maps, -, hresult⟩ := map_eq_some_iff.mp hmap
      cases hresult
      have hcall : b.host.outcome 0 = true := hok
      exact fun x => congrFun (Host.call_memory hcall) x
    · nomatch (congrArg Prod.fst (some.inj hmap))
  · nomatch (congrArg Prod.fst (some.inj hmap))

/-- No page belongs to two of the entries. -/
def PagesApart (l : List MapEntry) : Prop := l.Pairwise fun a c => ∀ x, a.OnPages x → ¬ c.OnPages x

/-- What rolling back leaves on the pages: those of the parts that were gone show the
file again, under the mode of the part, and the others are untouched. -/
theorem remap_host {removed : List MapEntry} (hapart : PagesApart removed)
    (hremap : remap removed b = some b') : (∀ e ∈ removed, ∀ x, e.OnPages x →
      b'.host.memory x = .shared e.mode (e.backing_offset + x - e.vaddr)) ∧
    ∀ x, (∀ e ∈ removed, ¬ e.OnPages x) → b'.host.memory x = b.host.memory x := by
  induction removed generalizing b with
  | nil =>
    cases hremap
    exact ⟨fun e he => absurd he not_mem_nil, fun _ _ => rfl⟩
  | cons e removed ih =>
    obtain ⟨hea, har⟩ := pairwise_cons.mp hapart
    unfold remap at hremap
    split at hremap
    next b1 hmap =>
      obtain ⟨hgone, hkept⟩ := ih har hremap
      have hmem := mapExisting_host hmap
      constructor
      · intro c hc x hx
        rcases mem_cons.mp hc with rfl | hc
        · -- the parts mapped after this one have other pages
          rw [hkept x fun d hd => hea d hd x hx, hmem x, if_pos hx]
        · exact hgone c hc x hx
      · intro x hx
        obtain ⟨hxe, hxr⟩ := forall_mem_cons.mp hx
        rw [hkept x hxr, hmem x, if_neg hxe]
    · nomatch hremap

/-! ## The host calls of a run -/

/-- **The loop of `Unmap` on the host.** If the host accepts every part, the pages of
all of them are gone. If it refuses one, the parts before it are mapped again, and so
are those that were gone at the start. -/
theorem unmapLoop_host (h : Wf b) {parts removed : List MapEntry} (ho : Ordered parts)
    (hp : Proper parts) (hheld : ∀ e ∈ parts, Held b.m_maps e)
    (hapart : PagesApart (removed ++ parts)) {ok : Bool}
    (hloop : unmapLoop parts removed b = some (ok, b')) :
    (ok = true → (∀ k < parts.length, b.host.outcome k = true) ∧
      ∀ x, b'.host.memory x =
        if ∃ e ∈ parts, e.OnPages x then .anonymous .noAccess 0 else b.host.memory x) ∧
    (ok = false → ∃ k < parts.length, b.host.outcome k = false ∧
      (∀ i < k, b.host.outcome i = true) ∧
      (∀ e ∈ removed ++ parts.take k, ∀ x, e.OnPages x →
        b'.host.memory x = .shared e.mode (e.backing_offset + x - e.vaddr)) ∧
      ∀ x, (∀ e ∈ removed ++ parts.take k, ¬ e.OnPages x) →
        b'.host.memory x = b.host.memory x) := by
  induction parts generalizing b removed with
  | nil =>
    cases hloop
    refine ⟨fun _ => ⟨fun k hk => absurd hk (not_lt_zero k), fun x => ?_⟩, nofun⟩
    rw [if_neg]
    rintro ⟨e, he, -⟩
    nomatch he
  | cons e parts ih =>
    obtain ⟨hnext, ho'⟩ := ordered_cons.mp ho
    obtain ⟨hpe, hp'⟩ := proper_cons.mp hp
    obtain ⟨he, hheld'⟩ := forall_mem_cons.mp hheld
    have hsize : 0 < e.size := by
      have : e.vaddr < e.vaddr + e.size := hpe
      omega
    obtain ⟨ok1, b1, hone, hwf1, -, -, htrue1⟩ := unmapOne_spec h hsize he
    obtain ⟨hok1, hhost1⟩ := unmapOne_host h hsize he hone
    have houtcome : ∀ n, b1.host.outcome n = b.host.outcome (n + 1) := by
      intro n
      rw [hhost1]
      rfl
    unfold unmapLoop at hloop
    rw [hone] at hloop
    cases ok1 with
    | false =>
      -- the refused call changed nothing; what was gone is mapped again
      have hmem1 : b1.host.memory = b.host.memory := by
        rw [hhost1]
        exact Host.call_refused hok1.symm
      obtain ⟨b2, hremap, heq⟩ := map_eq_some_iff.mp hloop
      cases heq
      have hapart' : PagesApart removed := (pairwise_append.mp hapart).1
      obtain ⟨hgone, hkept⟩ := remap_host hapart' hremap
      refine ⟨fun hf => absurd hf (by simp), fun _ => ⟨0, succ_pos _, hok1.symm,
        fun i hi => absurd hi (not_lt_zero i), ?_, ?_⟩⟩
      · rw [take_zero, append_nil]
        exact hgone
      · rw [take_zero, append_nil]
        exact fun x hx => (hkept x hx).trans (congrFun hmem1 x)
    | true =>
      have hmem1 : ∀ x, b1.host.memory x =
          if e.OnPages x then .anonymous .noAccess 0 else b.host.memory x := by
        intro x
        rw [hhost1]
        exact congrFun (Host.call_memory hok1.symm) x
      have hheld1 : ∀ c ∈ parts, Held b1.m_maps c := by
        intro c hc
        have hpc : c.vaddr < c.vaddr + c.size := hp' c hc
        exact (htrue1 rfl).2 c (hnext c hc) (by omega) (hheld' c hc)
      have hapart' : PagesApart ((e :: removed) ++ parts) :=
        (perm_middle.symm.pairwise_iff fun hab x hx hx' => hab x hx' hx).mpr hapart
      obtain ⟨htrue, hfalse⟩ := ih hwf1 ho' hp' hheld1 hapart' hloop
      constructor
      · intro hok
        obtain ⟨hall, hmem⟩ := htrue hok
        constructor
        · intro k hk
          cases k with
          | zero => exact hok1.symm
          | succ k =>
            rw [← houtcome k]
            exact hall k (lt_of_succ_lt_succ hk)
        · intro x
          rw [hmem x, hmem1 x, ← ite_or]
          apply if_congr _ rfl rfl
          rw [exists_mem_cons_iff, or_comm]
      · intro hok
        obtain ⟨k, hk, hno, hbefore, hgone, hkept⟩ := hfalse hok
        have hmem : ∀ c, c ∈ removed ++ (e :: parts).take (k + 1) ↔
            c ∈ (e :: removed) ++ parts.take k := by
          intro c
          rw [take_succ_cons]
          exact perm_middle.mem_iff
        refine ⟨k + 1, succ_lt_succ hk, (houtcome k).symm.trans hno, ?_, ?_, ?_⟩
        · intro i hi
          cases i with
          | zero => exact hok1.symm
          | succ i =>
            rw [← houtcome i]
            exact hbefore i (lt_of_succ_lt_succ hi)
        · exact fun c hc => hgone c ((hmem c).mp hc)
        · intro x hx
          have hxe : ¬ e.OnPages x :=
            hx e ((hmem e).mpr (mem_append_left _ (.head _ ..)))
          rw [hkept x fun c hc => hx c ((hmem c).mpr hc), hmem1 x, if_neg hxe]

/-! ## The pages of the parts -/

theorem views_ordered (h : Wf b)
    (htiles : Tiles b.m_maps s e parts) : parts.Pairwise fun p q => hi p.1 ≤ lo q.1 := by
  induction parts generalizing s with
  | nil => exact .nil
  | cons p parts ih =>
    obtain ⟨old, f, t⟩ := p
    obtain ⟨hold, -, hlo, hft, ht, hrest⟩ := htiles
    refine pairwise_cons.mpr ⟨?_, ih hrest⟩
    rintro ⟨old', f', t'⟩ hq
    obtain ⟨hold', hf', hft', ht', hlo', hhi'⟩ := hrest.part hq
    -- a part that is not the last one reaches to the end of its view
    have hend : t = hi old := by omega
    show hi old ≤ lo old'
    by_contra hmeet
    have hsame : old = old' := h.ordered.apart.eq_of_covers hold hold'
      (x := hi old - 1) ⟨by omega, by omega⟩ ⟨by omega, by omega⟩
    rw [hsame] at hend
    omega

variable {p : MapEntry × ℕ × ℕ}

section

variable (h : Live b) (htiles : Tiles b.m_maps s e parts)

include h htiles

theorem Live.page (hp : p ∈ parts) {x : ℕ} (hx : (target p).OnPages x) :
    p.1 ∈ b.m_maps ∧ Covers p.1 x ∧ ∃ prot, b.host.memory x =
      .shared prot ((target p).backing_offset + x - (target p).vaddr) := by
  obtain ⟨old, f, t⟩ := p
  obtain ⟨hold, -, hft, -, hlo, hhi⟩ := htiles.part hp
  obtain ⟨h1, h2⟩ := h.pages old hold
  have hlo' : old.vaddr ≤ f := hlo
  obtain ⟨hx1, hx2⟩ := in_of_onPages h1
    (show (old.vaddr + old.size) % 4096 = 0 by omega) hlo' hft hhi hx
  obtain ⟨prot, hprot⟩ := h.shown old hold x ⟨hx1, hx2⟩
  refine ⟨hold, ⟨hx1, hx2⟩, prot, ?_⟩
  rw [hprot]
  congr 1
  show _ = old.backing_offset + f - old.vaddr + x - f
  omega

theorem Live.pagesApart : PagesApart (parts.map target) := by
  unfold PagesApart
  rw [pairwise_map]
  refine (views_ordered h.wf htiles).imp_of_mem ?_
  intro p q hp hq hpq x hx hx'
  have h1 := (h.page htiles hp hx).2.1.2
  have h2 := (h.page htiles hq hx').2.1.1
  omega

/-- At a page of a part, what is there is the same after the call if the part is mapped
with the mode that the page has. -/
theorem Live.effectiveAt_iff (hp : p ∈ parts) {x : ℕ}
    (hx : (target p).OnPages x) (hbyte : b'.byteAt x = b.byteAt x) (hmem : b'.host.memory x =
      .shared (target p).mode ((target p).backing_offset + x - (target p).vaddr)) :
    b'.effectiveAt x = b.effectiveAt x ↔ (b.host.memory x).mode = (target p).mode := by
  obtain ⟨hold, hcov, prot, hprot⟩ := h.page htiles hp hx
  have hsome : b.byteAt x = some (p.1.attr x) := h.wf.ordered.apart.view_of_mem hold hcov
  unfold effectiveAt
  rw [hbyte, hsome, hmem, hprot, map_some, map_some, some.injEq,
    Prod.mk.injEq, HostByte.shared.injEq]
  constructor
  · exact fun heq => heq.2.1.symm
  · exact fun heq => ⟨rfl, heq.symm, rfl⟩

end

/-! ## When a call is atomic -/

/-- A call that the host accepts leaves what is outside of its interval as it was
exactly if the interval is made of whole pages. -/
theorem Live.accepted_iff (h : Live b) {vaddr size : ℕ} (hsize : 0 < size)
    (htiles : Tiles b.m_maps vaddr (vaddr + size) parts)
    (hbyte : ∀ x, b'.byteAt x = if vaddr ≤ x ∧ x < vaddr + size then none else b.byteAt x)
    (hmem : ∀ x, b'.host.memory x = if ∃ e ∈ parts.map target, e.OnPages x then
      .anonymous .noAccess 0 else b.host.memory x) :
    (∀ x, b'.effectiveAt x =
        if vaddr ≤ x ∧ x < vaddr + size then none else b.effectiveAt x) ↔
      vaddr % 4096 = 0 ∧ size % 4096 = 0 := by
  -- a page of a part has an address outside of the interval only if it straddles its edge
  have hlost : ∀ p ∈ parts, ∀ x, (target p).OnPages x → ¬ (vaddr ≤ x ∧ x < vaddr + size) →
      b'.effectiveAt x ≠ b.effectiveAt x := by
    intro p hp x hx hout heq
    obtain ⟨hold, hcov, prot, hprot⟩ := h.page htiles hp hx
    have hsome : b.byteAt x = some (p.1.attr x) := h.wf.ordered.apart.view_of_mem hold hcov
    unfold effectiveAt at heq
    rw [hbyte x, if_neg hout, hmem x, if_pos ⟨_, mem_map_of_mem hp, hx⟩, hprot, hsome] at heq
    nomatch (congrArg Prod.snd (some.inj heq))
  constructor
  · intro hall
    have hout : ∀ p ∈ parts, ∀ x, (target p).OnPages x → vaddr ≤ x ∧ x < vaddr + size := by
      intro p hp x hx
      by_contra hno
      have hsame := hall x
      rw [if_neg hno] at hsame
      exact hlost p hp x hx hno hsame
    -- the pages of the first and the last byte of the interval
    obtain ⟨old, f, t, hp, -, hf1, hf2, -, -⟩ := htiles.exists_part (x := vaddr) le_rfl (by omega)
    obtain ⟨old', f', t', hp', -, hl1, hl2, -, -⟩ :=
      htiles.exists_part (x := vaddr + size - 1) (by omega) (by omega)
    have h1 := hout _ hp (vaddr / 4096 * 4096)
      ⟨by show f / 4096 ≤ _; omega, by show _ < (f + (t - f) + 4095) / 4096; omega⟩
    have h2 := hout _ hp' ((vaddr + size - 1) / 4096 * 4096 + 4095)
      ⟨by show f' / 4096 ≤ _; omega, by show _ < (f' + (t' - f') + 4095) / 4096; omega⟩
    omega
  · rintro ⟨hstart, hwhole⟩ x
    by_cases hin : vaddr ≤ x ∧ x < vaddr + size
    · rw [if_pos hin, effectiveAt, hbyte x, if_pos hin, map_none]
    · rw [if_neg hin, effectiveAt, hbyte x, if_neg hin, hmem x, if_neg]
      · rfl
      · rintro ⟨e, he, hx⟩
        obtain ⟨⟨old, f, t⟩, hp, rfl⟩ := mem_map.mp he
        obtain ⟨-, hfrom, hft, hto, -⟩ := htiles.part hp
        exact hin (in_of_onPages hstart (show (vaddr + size) % 4096 = 0 by omega) hfrom hft hto hx)

end GuestBackingStore

open GuestBackingStore in
/-- **When `Unmap` is atomic.** A call that returns is atomic exactly if the host accepts
every part and the interval is made of whole pages, or refuses one and the pages of the
parts before it have the mode they were mapped with. -/
theorem unmap_atomic_iff {b : GuestBackingStore} (h : Live b) {vaddr size : ℕ} {ok : Bool}
    {b' : GuestBackingStore} (hunmap : b.unmap vaddr size = some (ok, b')) :
    Atomic b b' vaddr size ok ↔ Undoable b vaddr size := by
  obtain ⟨-, -, htaken, hkept⟩ := unmap_spec h.wf hunmap
  unfold GuestBackingStore.unmap at hunmap
  by_cases hbad : size = 0 ∨ UINT64_MAX - vaddr < size
  · rw [if_pos hbad] at hunmap
    cases hunmap
    refine iff_of_true ⟨fun _ _ => rfl, fun hf => nomatch hf⟩ ?_
    intro parts hparts
    unfold GuestBackingStore.targets at hparts
    rw [if_pos hbad] at hparts
    exact nomatch hparts
  · rw [if_neg hbad] at hunmap
    split at hunmap
    next hwalk =>
      cases hunmap
      refine iff_of_true ⟨fun _ _ => rfl, fun hf => nomatch hf⟩ ?_
      intro parts hparts
      unfold GuestBackingStore.targets at hparts
      rw [if_neg hbad, hwalk] at hparts
      exact nomatch hparts
    next parts hwalk =>
      have htiles := walk_tiles (sound_findContainingUnlocked h.wf) hwalk
      obtain ⟨h1, h2, h3, -⟩ := targets_spec htiles
      obtain ⟨htrue, hfalse⟩ := unmapLoop_host h.wf h1 h2 (fun c hc => (h3 c hc).1)
        (show PagesApart ([] ++ parts.map target) from h.pagesApart htiles) hunmap
      have htargets : ∀ l, b.targets vaddr size = some l ↔ parts.map target = l := by
        intro l
        unfold GuestBackingStore.targets
        rw [if_neg hbad, hwalk, Option.map_some, Option.some.injEq]
      unfold Undoable
      simp only [htargets, forall_eq']
      cases ok with
      | true =>
        obtain ⟨hall, hmem⟩ := htrue rfl
        rw [and_iff_left (fun k hk hno => absurd (hall k hk) (by rw [hno]; simp)),
          forall_prop_of_true hall,
          ← h.accepted_iff (by omega) htiles (htaken rfl).2 hmem]
        exact ⟨fun ha => ha.done rfl, fun hd => ⟨fun hf => absurd hf (by simp), fun _ => hd⟩⟩
      | false =>
        obtain ⟨k, hk, hno, hbefore, hgone, hsame⟩ := hfalse rfl
        rw [List.nil_append] at hgone hsame
        have heffective : ∀ e ∈ (parts.map target).take k, ∀ x, e.OnPages x →
            (b'.effectiveAt x = b.effectiveAt x ↔ (b.host.memory x).mode = e.mode) := by
          intro e he x hx
          obtain ⟨p, hp, rfl⟩ := List.mem_map.mp (List.mem_of_mem_take he)
          exact h.effectiveAt_iff htiles hp hx (hkept rfl x) (hgone _ he x hx)
        constructor
        · intro ha
          refine ⟨fun hall => absurd (hall k hk) (by rw [hno]; simp), ?_⟩
          intro k' hk' hno' hbefore' e he x hx
          -- the first refused call is the one the loop stopped at
          have hkk : k' = k := by
            rcases Nat.lt_trichotomy k' k with hlt | heq | hgt
            · exact absurd (hbefore k' hlt) (by rw [hno']; simp)
            · exact heq
            · exact absurd (hbefore' k hgt) (by rw [hno]; simp)
          rw [hkk] at he
          exact (heffective e he x hx).mp (ha.failed rfl x)
        · rintro ⟨-, hmodes⟩
          refine ⟨fun _ x => ?_, fun hf => nomatch hf⟩
          by_cases hx : ∃ e ∈ (parts.map target).take k, e.OnPages x
          · obtain ⟨e, he, hx⟩ := hx
            exact (heffective e he x hx).mpr (hmodes k hk hno hbefore e he x hx)
          · rw [not_exists] at hx
            unfold GuestBackingStore.effectiveAt
            rw [hkept rfl x, hsame x fun e he hon => hx e ⟨he, hon⟩]

namespace GuestBackingStore

/-- Two views mapped for reading and writing. The pages of the first one have been made
read-only since, and the host will refuse its second call. -/
def protectedViews : GuestBackingStore where
  m_size := 0x10000
  m_maps := [⟨0x4000, 0x4000, 0, .readWrite⟩, ⟨0x8000, 0x4000, 0x8000, .readWrite⟩]
  host :=
    { outcome := fun n => n != 1
      memory := fun x =>
        if x < 0x4000 ∨ 0xc000 ≤ x then .unmapped
        else if x < 0x8000 then .shared .read (x - 0x4000)
        else .shared .readWrite x }

theorem protectedViews_live : Live protectedViews where
  wf := by
    refine ⟨?_, ?_, ?_⟩
    · simp [Ordered, protectedViews, lo, hi]
    · simp [Proper, protectedViews, lo, hi]
    · simp [protectedViews, UINT64_MAX]
  pages := by simp [protectedViews]
  shown := by
    have hmem : ∀ x, protectedViews.host.memory x =
        if x < 0x4000 ∨ 0xc000 ≤ x then .unmapped
        else if x < 0x8000 then .shared .read (x - 0x4000) else .shared .readWrite x :=
      fun _ => rfl
    simp only [protectedViews, forall_mem_cons, not_mem_nil, IsEmpty.forall_iff,
      implies_true, and_true] at hmem ⊢
    constructor
    · rintro x ⟨hx1, hx2⟩
      have hx1 : 0x4000 ≤ x := hx1
      have hx2 : x < 0x4000 + 0x4000 := hx2
      refine ⟨.read, ?_⟩
      rw [if_neg (by omega), if_pos (by omega), zero_add]
    · rintro x ⟨hx1, hx2⟩
      have hx1 : 0x8000 ≤ x := hx1
      have hx2 : x < 0x8000 + 0x4000 := hx2
      refine ⟨.readWrite, ?_⟩
      rw [if_neg (by omega), if_neg (by omega), Nat.add_sub_cancel' hx1]

end GuestBackingStore

open GuestBackingStore in
/-- Rolling back makes the read-only pages of the first view writable again. -/
theorem unmap_restores_mapped_mode :
    Live protectedViews ∧ ∃ b', protectedViews.unmap 0x4000 0x8000 = some (false, b') ∧
      protectedViews.effectiveAt 0x4000 = some (0, .shared .read 0) ∧
      b'.effectiveAt 0x4000 = some (0, .shared .readWrite 0) ∧
      ¬ Atomic protectedViews b' 0x4000 0x8000 false := by
  refine ⟨protectedViews_live, _, rfl, by decide, by decide, ?_⟩
  intro ha
  exact nomatch (ha.failed rfl 0x4000)

open GuestBackingStore in
theorem unmap_atomic_iff_protectedViews :
    ∃ b', protectedViews.unmap 0x4000 0x8000 = some (false, b') ∧
      (Atomic protectedViews b' 0x4000 0x8000 false ↔ Undoable protectedViews 0x4000 0x8000) :=
  ⟨_, rfl, unmap_atomic_iff protectedViews_live rfl⟩

end MagnusPS5.Kernel
