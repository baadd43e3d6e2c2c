/-
The containers of the address space, one by one: what taking a block out of the
free ones, giving one back, and entering or removing a mapped region does to them.

Each lemma is about a container in good order and an interval that does not wrap.
The places where the source goes wrong without these are the subject of
`AddressSpaceRun`.
-/
import MagnusPS5.Kernel.AddressSpace

namespace MagnusPS5.Kernel.GuestAddressSpace

open Lib
open Spanned (lo hi)
open Nat hiding or_right_comm or_left_comm or_assoc
open Option hiding or_assoc
open List

/-- The blocks end at 64-bit addresses. -/
def RunsFit (l : List Run) : Prop := ∀ b ∈ l, b.start + b.size ≤ UINT64_MAX

/-! ## Giving a block back -/

theorem cut_iff {a b c x : ℕ} (hab : a ≤ b) (hbc : b ≤ c) :
    a ≤ x ∧ x < c ↔ (a ≤ x ∧ x < b) ∨ (b ≤ x ∧ x < c) := by
  omega

variable {before after : List Run} {it : Run} {m_mapped : List MappedRegion} {type : MappingType}

theorem coalesceBack_spec (h : Canonical before) (hfit : RunsFit before)
    (base : ℕ) (hle : ∀ a ∈ before, hi a ≤ base) : let out := coalesceBack base before.reverse
    out.1 ≤ base ∧ Canonical out.2.reverse ∧
      (∀ a ∈ out.2.reverse, a ∈ before ∧ hi a < out.1) ∧
      (out.1 = base → out.2.reverse = before) ∧
      (0 < base → (∀ a ∈ before, 0 < lo a) → 0 < out.1) ∧
      ∀ x, (out.1 ≤ x ∧ x < base) ∨ Occupied out.2.reverse x ↔ Occupied before x := by
  induction before using reverseRecOn generalizing base with
  | nil =>
    refine ⟨le_refl _, canonical_nil, fun a ha => absurd ha not_mem_nil, fun _ => rfl,
      fun hpos _ => hpos, fun x => ?_⟩
    show (base ≤ x ∧ x < base) ∨ Occupied [] x ↔ Occupied [] x
    rw [or_iff_right (by omega)]
  | append_singleton front p ih =>
    obtain ⟨hfront, hp, hgap⟩ := canonical_append.mp h
    have hpmem : p ∈ front ++ [p] := mem_append_right _ (mem_singleton_self p)
    have hpp : p.start < p.start + p.size := h.proper p hpmem
    have hend : addU64 p.start p.size = p.start + p.size := addU64_of_le (hfit p hpmem)
    have hple : p.start + p.size ≤ base := hle p hpmem
    have hgap' : ∀ a ∈ front, hi a < p.start := fun a ha =>
      hgap a ha p (mem_singleton_self p)
    rw [reverse_concat]
    unfold coalesceBack
    rw [hend]
    by_cases htouch : p.start + p.size = base
    · rw [if_neg (not_not.mpr htouch)]
      obtain ⟨h1, h2, h3, h4, h5, h6⟩ := ih hfront
        (fun a ha => hfit a (mem_append_left _ ha)) p.start
        (fun a ha => le_of_lt (hgap' a ha))
      refine ⟨by omega, h2, fun a ha => ⟨mem_append_left _ (h3 a ha).1, (h3 a ha).2⟩,
        fun heq => by omega, fun _ hpos => ?_, fun x => ?_⟩
      · exact h5 (hpos p hpmem) fun a ha => hpos a (mem_append_left _ ha)
      · have hcov : Covers p x ↔ p.start ≤ x ∧ x < base := by
          show p.start ≤ x ∧ x < p.start + p.size ↔ _
          rw [htouch]
        rw [occupied_append, occupied_cons, or_iff_left (occupied_nil x), hcov, ← h6 x,
          cut_iff h1 (by omega), or_right_comm]
    · rw [if_pos htouch]
      have hrev : (p :: front.reverse).reverse = front ++ [p] := by
        rw [reverse_cons, reverse_reverse]
      simp only [hrev]
      refine ⟨le_refl _, h, fun a ha => ⟨ha, ?_⟩, fun _ => trivial, fun hpos _ => hpos,
        fun x => or_iff_right (by omega)⟩
      rcases mem_append.mp ha with ha | ha
      · have := hgap' a ha
        omega
      · rw [mem_singleton.mp ha]
        show p.start + p.size < base
        omega

theorem coalesceForward_spec (h : Canonical after) (hfit : RunsFit after)
    (end_ : ℕ) (hle : ∀ b ∈ after, end_ ≤ lo b) (hend : end_ ≤ UINT64_MAX) :
    let out := coalesceForward end_ after
    end_ ≤ out.1 ∧ out.1 ≤ UINT64_MAX ∧ Canonical out.2 ∧
      (∀ b ∈ out.2, b ∈ after ∧ out.1 < lo b) ∧
      (out.1 = end_ → out.2 = after) ∧
      ∀ x, (end_ ≤ x ∧ x < out.1) ∨ Occupied out.2 x ↔ Occupied after x := by
  induction after generalizing end_ with
  | nil =>
    refine ⟨le_refl _, hend, canonical_nil, fun a ha => absurd ha not_mem_nil,
      fun _ => rfl, fun x => ?_⟩
    show (end_ ≤ x ∧ x < end_) ∨ Occupied [] x ↔ Occupied [] x
    rw [or_iff_right (by omega)]
  | cons b after ih =>
    obtain ⟨hgap, hpos, hafter⟩ := canonical_cons.mp h
    have hpos' : b.start < b.start + b.size := hpos
    have hfitb : b.start + b.size ≤ UINT64_MAX := hfit b mem_cons_self
    have hbend : addU64 b.start b.size = b.start + b.size := addU64_of_le hfitb
    unfold coalesceForward
    rw [hbend]
    by_cases htouch : end_ = b.start
    · rw [if_pos htouch]
      obtain ⟨h1, h2, h3, h4, h5, h6⟩ := ih hafter
        (fun c hc => hfit c (.tail _ hc)) (b.start + b.size)
        (fun c hc => le_of_lt (hgap c hc)) hfitb
      refine ⟨by omega, h2, h3, fun c hc => ⟨.tail _ (h4 c hc).1, (h4 c hc).2⟩,
        fun heq => by omega, fun x => ?_⟩
      have hcov : Covers b x ↔ end_ ≤ x ∧ x < b.start + b.size := by
        show b.start ≤ x ∧ x < b.start + b.size ↔ _
        rw [htouch]
      rw [occupied_cons, hcov, ← h6 x, cut_iff (by omega) h1, or_assoc]
    · rw [if_neg htouch]
      have hlt : end_ < b.start := by
        have hle' : end_ ≤ b.start := hle b mem_cons_self
        omega
      refine ⟨le_refl _, hend, h, fun c hc => ⟨hc, ?_⟩, fun _ => rfl,
        fun x => or_iff_right (by omega)⟩
      rcases mem_cons.mp hc with rfl | hc
      · exact hlt
      · have hbc : b.start + b.size < lo c := hgap c hc
        omega

variable {m_free : List Run} {vaddr size : ℕ}

/-- A block to give back meets no free block but one that it covers from its start. -/
def Clear (m_free : List Run) (vaddr size : ℕ) : Prop :=
  ∀ b ∈ m_free, (b.start = vaddr ∧ b.size ≤ size) ∨ vaddr + size ≤ lo b ∨ hi b ≤ vaddr

section

variable (h : Canonical m_free) (hclear : Clear m_free vaddr size)

include h hclear

/-- The blocks with lower starts end below the block. -/
theorem below_spec (hsize : 0 < size) : Canonical (m_free.takeWhile fun b => b.start < vaddr) ∧
    ∀ a ∈ m_free.takeWhile fun b => b.start < vaddr, a ∈ m_free ∧ hi a ≤ vaddr := by
  refine ⟨(h.split _).1, fun a ha => ?_⟩
  have hmem := ( takeWhile_prefix _).subset ha
  have hlt : a.start < vaddr := lo_lt_of_mem_takeWhile ha
  refine ⟨hmem, ?_⟩
  rcases hclear a hmem with h' | h' | h'
  · omega
  · have h'' : vaddr + size ≤ a.start := h'
    omega
  · exact h'

/-- The blocks with higher starts begin above the block. -/
theorem above_spec : Canonical (m_free.dropWhile fun b => b.start ≤ vaddr) ∧
    ∀ a ∈ m_free.dropWhile fun b => b.start ≤ vaddr, a ∈ m_free ∧ vaddr + size ≤ lo a := by
  refine ⟨(h.split _).2, fun a ha => ?_⟩
  have hmem := (dropWhile_suffix _).subset ha
  have hlt : vaddr < a.start := by
    simp only [← Nat.lt_succ_iff] at ha
    exact h.ordered.le_lo_of_mem_dropWhile h.proper ha
  refine ⟨hmem, ?_⟩
  rcases hclear a hmem with h' | h' | h'
  · omega
  · exact h'
  · have h'' : a.start + a.size ≤ vaddr := h'
    omega

/-- A free block is one of these, or the one that the block covers. -/
theorem occupied_beside (hsize : 0 < size) (x : ℕ) :
    Occupied m_free x ∨ (vaddr ≤ x ∧ x < vaddr + size) ↔
    Occupied (m_free.takeWhile fun b => b.start < vaddr) x ∨ (vaddr ≤ x ∧ x < vaddr + size) ∨
      Occupied (m_free.dropWhile fun b => b.start ≤ vaddr) x := by
  constructor
  · rintro (⟨b, hb, hcov⟩ | hx)
    · have hsplit : ∀ p : Run → Bool, b ∈ m_free → b ∈ m_free.takeWhile p ∨ b ∈ m_free.dropWhile p :=
        fun p hb => mem_append.mp (takeWhile_append_dropWhile.symm ▸ hb)
      rcases hsplit (fun b => b.start < vaddr) hb with hb | hb
      · exact .inl ⟨b, hb, hcov⟩
      have hlo : vaddr ≤ b.start := h.ordered.le_lo_of_mem_dropWhile h.proper hb
      rcases hsplit (fun b => b.start ≤ vaddr) ((dropWhile_suffix _).subset hb) with hmem | hmem
      · -- the one block that may start where the interval does
        have hle : b.start ≤ vaddr := by simpa using mem_takeWhile_imp hmem
        have hin : b.start ≤ x ∧ x < b.start + b.size := hcov
        rcases hclear b (( takeWhile_prefix _).subset hmem) with h' | h' | h'
        · exact .inr (.inl (by omega))
        · have h'' : vaddr + size ≤ b.start := h'
          omega
        · have h'' : b.start + b.size ≤ vaddr := h'
          omega
      · exact .inr (.inr ⟨b, hmem, hcov⟩)
    · exact .inr (.inl hx)
  · rintro (⟨b, hb, hcov⟩ | hx | ⟨b, hb, hcov⟩)
    · exact .inl ⟨b, ((below_spec h hclear hsize).2 b hb).1, hcov⟩
    · exact .inr hx
    · exact .inl ⟨b, ((above_spec h hclear).2 b hb).1, hcov⟩

end

/-- **`AddFreeUnlocked`** keeps the free blocks canonical and adds exactly the
interval, if no other block meets it than one that it covers from the same start. -/
theorem addFreeUnlocked_spec (h : Canonical m_free) (hfit : RunsFit m_free)
    (hv : 0 < vaddr) (hsize : 0 < size) (hspan : vaddr + size ≤ UINT64_MAX)
    (hclear : Clear m_free vaddr size) :
    Canonical (addFreeUnlocked m_free vaddr size) ∧ RunsFit (addFreeUnlocked m_free vaddr size) ∧
      ((∀ b ∈ m_free, 0 < b.start) → ∀ b ∈ addFreeUnlocked m_free vaddr size, 0 < b.start) ∧
      ∀ x, Occupied (addFreeUnlocked m_free vaddr size) x ↔
        Occupied m_free x ∨ (vaddr ≤ x ∧ x < vaddr + size) := by
  obtain ⟨hcb, hbelow⟩ := below_spec h hclear hsize
  obtain ⟨hca, habove⟩ := above_spec h hclear
  have hocc := occupied_beside h hclear hsize
  unfold addFreeUnlocked
  rw [if_neg (by omega), addU64_of_le hspan]
  generalize (m_free.takeWhile fun b => decide (b.start < vaddr)) = before at *
  generalize (m_free.dropWhile fun b => decide (b.start ≤ vaddr)) = after at *
  obtain ⟨b1, b2, b3, b4, b5, b6⟩ := coalesceBack_spec hcb
    (fun a ha => hfit a (hbelow a ha).1) vaddr fun a ha => (hbelow a ha).2
  obtain ⟨f1, f2, f3, f4, f5, f6⟩ := coalesceForward_spec hca
    (fun a ha => hfit a (habove a ha).1) (vaddr + size) (fun a ha => (habove a ha).2) hspan
  rcases hback : coalesceBack vaddr before.reverse with ⟨base, first⟩
  rcases hfwd : coalesceForward (vaddr + size) after with ⟨end_, last⟩
  simp only [hback] at b1 b2 b3 b4 b5 b6 ⊢
  simp only [hfwd] at f1 f2 f3 f4 f5 f6 ⊢
  -- whether something was coalesced or not, the list has one shape
  have hshape : (if base ≠ vaddr ∨ end_ ≠ vaddr + size then
        first.reverse ++ ⟨base, subU64 end_ base⟩ :: last
      else before ++ ⟨vaddr, size⟩ :: after) =
      first.reverse ++ (⟨base, end_ - base⟩ : Run) :: last := by
    rw [subU64_of_le (by omega) f2]
    split
    · rfl
    next hsame =>
      obtain ⟨rfl, rfl⟩ := not_or.mp hsame |>.imp not_not.mp not_not.mp
      rw [b4 rfl, f5 rfl, Nat.add_sub_cancel_left]
  have hmem : ∀ b ∈ first.reverse ++ (⟨base, end_ - base⟩ : Run) :: last,
      b ∈ m_free ∨ b = ⟨base, end_ - base⟩ := by
    intro b hb
    rcases mem_append.mp hb with hb | hb
    · exact .inl (hbelow b (b3 b hb).1).1
    · exact (mem_cons.mp hb).symm.imp_left fun hb => (habove b (f4 b hb).1).1
  obtain ⟨hcanonical, hoccupied⟩ := between_spec b2 f3 (s := base) (e := end_) (by omega)
    (fun a ha => (b3 a ha).2) fun b hb => (f4 b hb).2
  rw [hshape]
  refine ⟨hcanonical, fun b hb => ?_, fun hstarts b hb => ?_, fun x => ?_⟩
  · rcases hmem b hb with hb | rfl
    · exact hfit b hb
    · show base + (end_ - base) ≤ UINT64_MAX
      omega
  · rcases hmem b hb with hb | rfl
    · exact hstarts b hb
    · exact b5 hv fun a ha => hstarts a (hbelow a ha).1
  · rw [hoccupied x, hocc x, cut_iff b1 (by omega), cut_iff (by omega) f1, ← b6 x, ← f6 x]
    simp only [or_assoc]
    exact or_left_comm

/-! ## Taking a block out -/

/-- The keys on either side of a position of the map. -/
def Around (before : List Run) (k : ℕ) (after : List Run) : Prop :=
  (∀ a ∈ before, a.start < k) ∧ ∀ c ∈ after, k < c.start

section Around

variable {k n : ℕ}

theorem find?_around (h : Around before k after) :
    (before ++ ⟨k, n⟩ :: after).find? (fun b => decide (b.start = k)) = some ⟨k, n⟩ := by
  have hnone : before.find? (fun b => decide (b.start = k)) = none := by
    apply find?_eq_none.mpr
    intro a ha
    have := h.1 a ha
    simp only [decide_eq_true_eq]
    omega
  rw [find?_append, hnone, none_or]
  exact find?_cons_of_pos (decide_eq_true rfl)

theorem setSize_of_ne {l : List Run} (m : ℕ) (h : ∀ b ∈ l, b.start ≠ k) : setSize k m l = l := by
  have hmap : l.map (fun b => if b.start = k then { b with size := m } else b) = l.map id := by
    refine List.map_congr_left fun b hb => ?_
    rw [if_neg (h b hb)]
    rfl
  unfold setSize
  rw [hmap, List.map_id]

section

variable (h : Around before k after)

include h

theorem setSize_around (m : ℕ) :
    setSize k m (before ++ ⟨k, n⟩ :: after) = before ++ ⟨k, m⟩ :: after := by
  have h1 := setSize_of_ne (k := k) m fun a ha => Nat.ne_of_lt (h.1 a ha)
  have h2 := setSize_of_ne (k := k) m fun c hc => ne_of_gt (h.2 c hc)
  unfold setSize at h1 h2 ⊢
  rw [map_append, map_cons, h1, h2, if_pos rfl]

theorem eraseAt_around : eraseAt k (before ++ (⟨k, n⟩ : Run) :: after) = before ++ after := by
  have hsame : ∀ {l : List Run}, (∀ b ∈ l, b.start ≠ k) →
      l.filter (fun b => decide (lo b ≠ k)) = l := fun hl =>
    filter_eq_self.mpr fun b hb => decide_eq_true (hl b hb)
  unfold eraseAt
  rw [filter_append, filter_cons_of_neg (by
      simp only [decide_eq_true_eq, not_not]
      rfl), hsame fun a ha => Nat.ne_of_lt (h.1 a ha),
    hsame fun c hc => ne_of_gt (h.2 c hc)]

theorem emplaceFirst_around :
    emplaceFirst k n (before ++ after) = (⟨k, n⟩, before ++ ⟨k, n⟩ :: after) := by
  have hnone : (before ++ after).find? (fun b => decide (b.start = k)) = none := by
    apply find?_eq_none.mpr
    intro a ha
    simp only [decide_eq_true_eq]
    rcases mem_append.mp ha with ha | ha
    · exact Nat.ne_of_lt (h.1 a ha)
    · exact ne_of_gt (h.2 a ha)
  unfold emplaceFirst
  simp only [hnone]
  rw [place_append (b := (⟨k, n⟩ : Run)) h.1 fun c hc => le_of_lt (h.2 c hc)]

end

end Around

theorem splitRight_eq
    (h : Around before vaddr after) (length size : ℕ) (hafter : ∀ c ∈ after, vaddr + length < c.start)
    (hfit : vaddr + length ≤ UINT64_MAX) (hsize : size ≤ length) (hpos : 0 < size) :
    (if length ≠ size then
        (emplaceFirst (addU64 vaddr size) (subU64 length size)
          (setSize vaddr size (before ++ ⟨vaddr, length⟩ :: after))).2
      else before ++ ⟨vaddr, length⟩ :: after) =
      before ++ ⟨vaddr, size⟩ :: ((if vaddr + size < vaddr + length then
        [(⟨vaddr + size, vaddr + length - vaddr - size⟩ : Run)] else []) ++ after) := by
  by_cases hsame : length = size
  · rw [if_neg (not_not.mpr hsame), if_neg (by omega), hsame, nil_append]
  · rw [if_pos hsame, if_pos (by omega), setSize_around h, addU64_of_le (by omega),
      subU64_of_le hsize (by omega)]
    have hright : Around (before ++ [⟨vaddr, size⟩]) (vaddr + size) after := by
      refine ⟨fun a ha => ?_, fun c hc => ?_⟩
      · rcases mem_append.mp ha with ha | ha
        · have := h.1 a ha
          omega
        · rw [mem_singleton.mp ha]
          show vaddr < vaddr + size
          omega
      · have := hafter c hc
        omega
    have hplace := emplaceFirst_around (n := length - size) hright
    rw [append_assoc, singleton_append, append_assoc, singleton_append] at hplace
    rw [hplace, Nat.add_sub_cancel_left]
    rfl

section

variable (h : Canonical (before ++ it :: after)) (hfit : RunsFit (before ++ it :: after))

include h hfit

theorem consumeUnlocked_append
    (hsize : 0 < size) (hlo : it.start ≤ vaddr) (hhi : vaddr + size ≤ it.start + it.size) :
    consumeUnlocked (before ++ it :: after) vaddr size =
      (true, takeRun before it after vaddr size) := by
  obtain ⟨-, h2, h3⟩ := canonical_append.mp h
  obtain ⟨h4, -, -⟩ := canonical_cons.mp h2
  have hmem : it ∈ before ++ it :: after := mem_append_right _ mem_cons_self
  have hitfit : it.start + it.size ≤ UINT64_MAX := hfit it hmem
  have hend : addU64 it.start it.size = it.start + it.size := addU64_of_le hitfit
  have hvend : addU64 vaddr size = vaddr + size := addU64_of_le (by omega)
  have hbefore : ∀ a ∈ before, a.start < it.start := fun a ha => by
    have hgap : a.start + a.size < it.start := h3 a ha it mem_cons_self
    omega
  have hafter : ∀ c ∈ after, it.start + it.size < c.start := h4
  have hfind : findContaining (before ++ it :: after) vaddr size = some it := by
    have hcov : Covers it vaddr := ⟨hlo, by show vaddr < it.start + it.size; omega⟩
    unfold findContaining
    rw [h.ordered.floor?_of_covers h.proper hmem hcov, hvend, filter_some, hend]
    exact if_pos (decide_eq_true ⟨hlo, hhi⟩)
  obtain ⟨start, length⟩ := it
  dsimp only at hlo hhi hitfit hend hbefore hafter
  have hstart : Around before start after :=
    ⟨hbefore, fun c hc => by have := hafter c hc; omega⟩
  -- the left piece, when there is one, ends where the interval begins
  have hsplit : ∃ left, left = (if start < vaddr then [(⟨start, vaddr - start⟩ : Run)] else []) ∧
      Around (before ++ left) vaddr after ∧
      splitUnlocked (before ++ ⟨start, length⟩ :: after) ⟨start, length⟩ vaddr size =
        (before ++ left) ++ ⟨vaddr, size⟩ :: ((if vaddr + size < start + length then
          [(⟨vaddr + size, start + length - vaddr - size⟩ : Run)] else []) ++ after) := by
    refine ⟨_, rfl, ?_, ?_⟩
    · refine ⟨fun a ha => ?_, fun c hc => by have := hafter c hc; omega⟩
      rcases mem_append.mp ha with ha | ha
      · have := hbefore a ha
        omega
      · split at ha
        · rw [mem_singleton.mp ha]
          assumption
        · nomatch ha
    · unfold splitUnlocked
      rw [hend, hvend]
      by_cases hbase : start = vaddr
      · subst hbase
        by_cases hwhole : start + length = start + size
        · have hlen : length = size := by omega
          rw [if_pos ⟨rfl, hwhole⟩, if_neg (lt_irrefl _), if_neg (by omega), hlen,
            append_nil, nil_append]
        · rw [if_neg fun hw => hwhole hw.2, if_neg (lt_irrefl start), append_nil]
          simp only [ne_eq, not_true_eq_false, if_false]
          exact splitRight_eq hstart _ _ hafter hitfit (by omega) hsize
      · have hlt : start < vaddr := by omega
        rw [if_neg fun hw => hbase hw.1, if_pos hlt]
        simp only [ne_eq, hbase, not_false_iff, if_true]
        rw [setSize_around hstart, subU64_of_le (by omega) hitfit, subU64_of_le hlo (by omega)]
        have hnew : Around (before ++ [⟨start, vaddr - start⟩]) vaddr after := by
          refine ⟨fun a ha => ?_, fun c hc => by have := hafter c hc; omega⟩
          rcases mem_append.mp ha with ha | ha
          · have := hbefore a ha
            omega
          · rw [mem_singleton.mp ha]
            exact hlt
        have hplace := emplaceFirst_around (n := start + length - vaddr) hnew
        rw [append_assoc, singleton_append] at hplace
        rw [hplace]
        have hright := splitRight_eq hnew (start + length - vaddr) size
          (fun c hc => by have := hafter c hc; omega) (by omega) (by omega) hsize
        have hvlen : vaddr + (start + length - vaddr) = start + length := by omega
        rw [hvlen] at hright
        exact hright
  obtain ⟨left, hleft, haround, heq⟩ := hsplit
  have haround' : Around (before ++ left) vaddr ((if vaddr + size < start + length then
      [(⟨vaddr + size, start + length - vaddr - size⟩ : Run)] else []) ++ after) := by
    refine ⟨haround.1, fun c hc => ?_⟩
    rcases mem_append.mp hc with hc | hc
    · split at hc
      · rw [mem_singleton.mp hc]
        show vaddr < vaddr + size
        omega
      · nomatch hc
    · exact haround.2 c hc
  unfold consumeUnlocked
  simp only [hfind, heq, find?_around haround', ne_eq, not_true_eq_false, if_false]
  rw [eraseAt_around haround', hleft]
  unfold takeRun
  simp only [append_assoc]

/-- At the end of a block the empty interval is found in it, and taking it out changes
nothing. -/
theorem consumeUnlocked_atEnd
    (hfind : findContaining (before ++ it :: after) (it.start + it.size) 0 = some it) :
    consumeUnlocked (before ++ it :: after) (it.start + it.size) 0 =
      (true, before ++ it :: after) := by
  obtain ⟨-, h2, h3⟩ := canonical_append.mp h
  obtain ⟨h4, hpos, -⟩ := canonical_cons.mp h2
  have hitfit : it.start + it.size ≤ UINT64_MAX :=
    hfit it (mem_append_right _ mem_cons_self)
  obtain ⟨start, length⟩ := it
  dsimp only at hfind hitfit ⊢
  have hpos' : start < start + length := hpos
  have hbefore : ∀ a ∈ before, a.start < start := fun a ha => by
    have hgap : a.start + a.size < start := h3 a ha _ mem_cons_self
    omega
  have hafter : ∀ c ∈ after, start + length < c.start := h4
  have hstart : Around before start after :=
    ⟨hbefore, fun c hc => by have := hafter c hc; omega⟩
  have hnew : Around (before ++ [⟨start, length⟩]) (start + length) after := by
    refine ⟨fun a ha => ?_, hafter⟩
    rcases mem_append.mp ha with ha | ha
    · have := hbefore a ha
      omega
    · rw [mem_singleton.mp ha]
      exact hpos'
  have hplace := emplaceFirst_around (n := 0) hnew
  have hfound := find?_around (n := 0) hnew
  have herase := eraseAt_around (n := 0) hnew
  simp only [append_assoc, singleton_append] at hplace hfound herase
  have hsplit : splitUnlocked (before ++ ⟨start, length⟩ :: after) ⟨start, length⟩
      (start + length) 0 = before ++ ⟨start, length⟩ :: ⟨start + length, 0⟩ :: after := by
    have hne : ¬ start = start + length := by omega
    have hlength : subU64 (start + length) start = length := by
      rw [subU64_of_le (by omega) hitfit, Nat.add_sub_cancel_left]
    have hzero : subU64 (start + length) (start + length) = 0 := by
      rw [subU64_of_le le_rfl hitfit, Nat.sub_self]
    unfold splitUnlocked
    rw [if_neg fun hw => hne hw.1]
    simp only [ne_eq, hne, not_false_iff, if_true]
    rw [addU64_of_le hitfit, hlength, hzero, setSize_around hstart, hplace]
    rfl
  unfold consumeUnlocked
  simp only [hfind, hsplit, hfound, ne_eq, not_true_eq_false, if_false, herase]

end

/-- The free blocks in good order: address 0 and the last address are never free. -/
structure FreeWf (m_free : List Run) : Prop where
  canonical : Canonical m_free
  bounded : ∀ x, Occupied m_free x → 0 < x ∧ x < UINT64_MAX

section

variable (h : FreeWf m_free)

include h

theorem FreeWf.fits : RunsFit m_free := by
  intro b hb
  have hp : b.start < b.start + b.size := h.canonical.proper b hb
  have hlast := (h.bounded (b.start + b.size - 1) ⟨b, hb, by
    show b.start ≤ b.start + b.size - 1
    omega, by
    show b.start + b.size - 1 < b.start + b.size
    omega⟩).2
  omega

theorem FreeWf.start_pos {b : Run} (hb : b ∈ m_free) : 0 < b.start :=
  (h.bounded b.start ⟨b, hb, le_refl _, h.canonical.proper b hb⟩).1

theorem findContaining_eq_some (hspan : vaddr + size ≤ UINT64_MAX)
    (hfind : findContaining m_free vaddr size = some it) :
    it ∈ m_free ∧ it.start ≤ vaddr ∧ vaddr + size ≤ it.start + it.size := by
  obtain ⟨hfloor, hin⟩ := filter_eq_some_iff.mp hfind
  obtain ⟨hmem, hle⟩ := mem_of_floor? hfloor
  rw [decide_eq_true_eq, addU64_of_le hspan, addU64_of_le (h.fits it hmem)] at hin
  exact ⟨hmem, hin⟩

theorem findContaining_of_inside (hmem : it ∈ m_free) (hsize : 0 < size) (hlo : it.start ≤ vaddr)
    (hhi : vaddr + size ≤ it.start + it.size) : findContaining m_free vaddr size = some it := by
  have hfit := h.fits it hmem
  have hcov : Covers it vaddr := ⟨hlo, by show vaddr < it.start + it.size; omega⟩
  unfold findContaining
  rw [h.canonical.ordered.floor?_of_covers h.canonical.proper hmem hcov, filter_some,
    addU64_of_le (by omega), addU64_of_le hfit]
  exact if_pos (decide_eq_true ⟨hlo, hhi⟩)

end

/-- The containment test did not answer for an interval that wraps, nor for an empty
one before the end of the block. -/
def Contained (m_free : List Run) (vaddr size : ℕ) : Prop :=
  ∀ it, findContaining m_free vaddr size = some it →
    vaddr + size ≤ UINT64_MAX ∧ (size = 0 → vaddr = it.start + it.size)

/-- **`ConsumeUnlocked`** takes exactly the interval out of the free addresses, or
leaves the free blocks alone. -/
theorem consumeUnlocked_spec {m_free' : List Run} (h : FreeWf m_free)
    (hok : Contained m_free vaddr size) {ok : Bool}
    (heq : consumeUnlocked m_free vaddr size = (ok, m_free')) :
    FreeWf m_free' ∧ (ok = true ↔ (findContaining m_free vaddr size).isSome) ∧
      (ok = false → m_free' = m_free) ∧
      (ok = true → 0 < vaddr ∧ vaddr + size ≤ UINT64_MAX ∧
        (∀ x, vaddr ≤ x → x < vaddr + size → Occupied m_free x) ∧
        ∀ x, Occupied m_free' x ↔ Occupied m_free x ∧ ¬ (vaddr ≤ x ∧ x < vaddr + size)) := by
  cases hfind : findContaining m_free vaddr size with
  | none =>
    unfold consumeUnlocked at heq
    simp only [hfind, Prod.mk.injEq] at heq
    obtain ⟨rfl, rfl⟩ := heq
    exact ⟨h, by simp, fun _ => rfl, nofun⟩
  | some it =>
    obtain ⟨hspan, hempty⟩ := hok it hfind
    obtain ⟨hmem, hlo, hhi⟩ := findContaining_eq_some h hspan hfind
    have hpos := h.start_pos hmem
    obtain ⟨before, after, rfl⟩ := append_of_mem hmem
    by_cases hsize : size = 0
    · -- the empty interval behind the block
      subst hsize
      obtain rfl := hempty rfl
      rw [consumeUnlocked_atEnd h.canonical h.fits hfind, Prod.mk.injEq] at heq
      obtain ⟨rfl, rfl⟩ := heq
      refine ⟨h, by simp, fun hf => absurd hf (by simp), fun _ => ⟨by omega, hspan,
        fun x h1 h2 => by omega, fun x => ?_⟩⟩
      rw [and_iff_left (by omega)]
    · rw [consumeUnlocked_append h.canonical h.fits (by omega) hlo hhi, Prod.mk.injEq] at heq
      obtain ⟨rfl, rfl⟩ := heq
      have hocc := fun x => occupied_takeRun h.canonical hlo hhi x
      refine ⟨⟨canonical_takeRun h.canonical hlo hhi (by omega), fun x hx =>
        h.bounded x ((hocc x).mp hx).1⟩, by simp, fun hf => absurd hf (by simp),
        fun _ => ⟨by omega, hspan, fun x h1 h2 => ?_, hocc⟩⟩
      exact occupied_of_inside hmem hlo hhi h1 h2

/-- **`AddFreeUnlocked`** gives an interval back that no free block meets. -/
theorem addFreeUnlocked_vacant (h : FreeWf m_free)
    (hv : 0 < vaddr) (hspan : vaddr + size ≤ UINT64_MAX)
    (hclear : ∀ x, vaddr ≤ x → x < vaddr + size → ¬ Occupied m_free x) :
    FreeWf (addFreeUnlocked m_free vaddr size) ∧
      ∀ x, Occupied (addFreeUnlocked m_free vaddr size) x ↔
        Occupied m_free x ∨ (vaddr ≤ x ∧ x < vaddr + size) := by
  by_cases hsize : size = 0
  · subst hsize
    have hsame : addFreeUnlocked m_free vaddr 0 = m_free := if_pos (.inr rfl)
    rw [hsame]
    exact ⟨h, fun x => (or_iff_left (by omega)).symm⟩
  · obtain ⟨h1, -, -, h4⟩ := addFreeUnlocked_spec h.canonical h.fits hv (by omega) hspan
      fun b hb => by
        have hp : b.start < b.start + b.size := h.canonical.proper b hb
        refine .inr ?_
        by_contra hmeet
        have hp' : lo b < hi b := hp
        exact hclear (max vaddr (lo b)) (by omega) (by omega) ⟨b, hb, by omega, by omega⟩
    refine ⟨⟨h1, fun x hx => ?_⟩, h4⟩
    rcases (h4 x).mp hx with hx | hx
    · exact h.bounded x hx
    · omega

/-! ## The mapped regions -/

/-- The kind of mapping at an address. -/
def MappedRegion.attr (r : MappedRegion) (_ : ℕ) : MappingType := r.type

/-- The kind of mapping at an address of the table. -/
abbrev typeAt (m_mapped : List MappedRegion) (x : ℕ) : Option MappingType :=
  view MappedRegion.attr m_mapped x

theorem typeAt_ne_none {x : ℕ} : typeAt m_mapped x ≠ none ↔ Occupied m_mapped x := view_ne_none_iff

/-- The mapped regions in good order: the last address is never mapped. -/
structure MappedWf (m_mapped : List MappedRegion) : Prop where
  ordered : Ordered m_mapped
  proper : Proper m_mapped
  bounded : ∀ x, Occupied m_mapped x → x < UINT64_MAX

section

variable (h : MappedWf m_mapped)

include h

theorem MappedWf.fits {r : MappedRegion} (hr : r ∈ m_mapped) : r.vaddr + r.size ≤ UINT64_MAX := by
  have hp : r.vaddr < r.vaddr + r.size := h.proper r hr
  have hcov : Covers r (r.vaddr + r.size - 1) :=
    ⟨by show r.vaddr ≤ _; omega, by show _ < r.vaddr + r.size; omega⟩
  have hlast := h.bounded _ ⟨r, hr, hcov⟩
  omega

theorem findMappedContainingUnlocked_eq (x : ℕ) :
    findMappedContainingUnlocked m_mapped x = at? m_mapped x :=
  h.ordered.floor?_filter h.proper x

theorem at?_filter_type (x : ℕ) (type : MappingType) :
    ((at? m_mapped x).filter fun it => it.type = type).isSome ↔ typeAt m_mapped x = some type := by
  rw [h.ordered.apart.view_eq_some_iff, isSome_iff_exists]
  constructor
  · rintro ⟨r, hr⟩
    obtain ⟨hat, htype⟩ := filter_eq_some_iff.mp hr
    exact ⟨r, mem_of_at?_eq_some hat, covers_of_at?_eq_some hat, of_decide_eq_true htype⟩
  · rintro ⟨r, hr, hcov, htype⟩
    exact ⟨r, filter_eq_some_iff.mpr
      ⟨h.ordered.apart.at?_eq_some_iff.mpr ⟨hr, hcov⟩, decide_eq_true htype⟩⟩

/-- **`ContainsMappedUnlocked`** asks whether a non-empty interval, which does not wrap, is
mapped throughout in the one way. -/
theorem containsMappedUnlocked_iff :
    containsMappedUnlocked m_mapped vaddr size type = true ↔
      0 < size ∧ vaddr + size ≤ UINT64_MAX ∧
        ∀ x, vaddr ≤ x → x < vaddr + size → typeAt m_mapped x = some type := by
  unfold containsMappedUnlocked
  by_cases hbad : size = 0 ∨ UINT64_MAX - vaddr < size
  · rw [if_pos hbad]
    exact ⟨fun hf => absurd hf (by simp), fun hf => by omega⟩
  · have hsound : Sound m_mapped fun current =>
        (findMappedContainingUnlocked m_mapped current).filter fun it => it.type = type := by
      intro x r hr
      simp only [findMappedContainingUnlocked_eq h] at hr
      obtain ⟨hat, -⟩ := filter_eq_some_iff.mp hr
      exact sound_at? m_mapped x r hat
    rw [if_neg hbad, walk_isSome_iff hsound]
    · simp only [findMappedContainingUnlocked_eq h, at?_filter_type h]
      exact ⟨fun hall => ⟨by omega, by omega, hall⟩, fun hall => hall.2.2⟩
    · intro r x y hr hxy hy
      simp only [findMappedContainingUnlocked_eq h, at?_filter_type h] at hr ⊢
      obtain ⟨hat, htype⟩ := filter_eq_some_iff.mp hr
      exact h.ordered.apart.view_eq_some_iff.mpr ⟨r, mem_of_at?_eq_some hat,
        ⟨(covers_of_at?_eq_some hat).1.trans hxy, hy⟩, of_decide_eq_true htype⟩

end

/-- **`AddMappedUnlocked`** accepts a non-empty interval clear of every region. -/
theorem addMappedUnlocked_apart (ho : Ordered m_mapped) (hp : Proper m_mapped)
    (type : MappingType) (hsize : 0 < size) (hspan : vaddr + size ≤ UINT64_MAX)
    (hapart : ∀ c ∈ m_mapped, vaddr + size ≤ lo c ∨ hi c ≤ vaddr) :
    addMappedUnlocked m_mapped vaddr size type =
      emplace ⟨vaddr, size, type⟩ m_mapped := by
  have hnext : ((m_mapped.dropWhile fun r => decide (r.vaddr < vaddr)).head?).any
      (fun r => decide (r.vaddr < vaddr + size)) = false := by
    rw [Option.any_eq_false]
    intro r hr
    have hmem : r ∈ m_mapped.dropWhile fun r => decide (r.vaddr < vaddr) :=
      mem_of_mem_head? hr
    have hlo : vaddr ≤ r.vaddr := ho.le_lo_of_mem_dropWhile hp hmem
    have hpr : r.vaddr < r.vaddr + r.size := hp r ((dropWhile_suffix _).subset hmem)
    have hclear : vaddr + size ≤ r.vaddr ∨ r.vaddr + r.size ≤ vaddr :=
      hapart r ((dropWhile_suffix _).subset hmem)
    exact decide_eq_false (by omega)
  have hprevious : ((m_mapped.takeWhile fun r => decide (r.vaddr < vaddr)).getLast?).any
      (fun r => decide (vaddr < r.vaddr + r.size)) = false := by
    rw [Option.any_eq_false]
    intro r hr
    have hmem : r ∈ m_mapped.takeWhile fun r => decide (r.vaddr < vaddr) :=
      mem_of_getLast? hr
    have hlo : r.vaddr < vaddr := lo_lt_of_mem_takeWhile hmem
    have hclear : vaddr + size ≤ r.vaddr ∨ r.vaddr + r.size ≤ vaddr :=
      hapart r (( takeWhile_prefix _).subset hmem)
    exact decide_eq_false (by omega)
  unfold addMappedUnlocked
  rw [if_neg (by omega)]
  simp only [hnext, hprevious, Bool.false_eq_true, if_false]

/-- **`AddMappedUnlocked`** of a vacant interval maps exactly that. -/
theorem addMappedUnlocked_vacant (h : MappedWf m_mapped) (type : MappingType)
    (hsize : 0 < size) (hspan : vaddr + size ≤ UINT64_MAX)
    (hvacant : ∀ x, vaddr ≤ x → x < vaddr + size → ¬ Occupied m_mapped x) :
    ∃ m', addMappedUnlocked m_mapped vaddr size type = some m' ∧ MappedWf m' ∧
      ∀ x, typeAt m' x =
        if vaddr ≤ x ∧ x < vaddr + size then some type else typeAt m_mapped x := by
  have hapart : ∀ c ∈ m_mapped, vaddr + size ≤ lo c ∨ hi c ≤ vaddr := by
    intro c hc
    have hpc := h.proper c hc
    by_contra hmeet
    exact hvacant (max vaddr (lo c)) (by omega) (by omega) ⟨c, hc, by omega, by omega⟩
  have hpos : lo (⟨vaddr, size, type⟩ : MappedRegion) <
      hi (⟨vaddr, size, type⟩ : MappedRegion) := by
    show vaddr < vaddr + size
    omega
  rw [addMappedUnlocked_apart h.ordered h.proper type hsize hspan hapart,
    emplace_of_apart h.proper hpos hapart]
  refine ⟨_, rfl, ⟨h.ordered.place h.proper hpos hapart, proper_place hpos h.proper,
    fun x hx => ?_⟩, view_place h.ordered h.proper hpos hapart⟩
  rcases occupied_place.mp hx with ⟨h1, h2⟩ | hx
  · have h2' : x < vaddr + size := h2
    omega
  · exact h.bounded x hx

theorem addMappedPart_apart (ho : Ordered m_mapped) (hp : Proper m_mapped) {start end_ : ℕ}
    (type : MappingType) (hspan : end_ ≤ UINT64_MAX)
    (hapart : ∀ c ∈ m_mapped, end_ ≤ lo c ∨ hi c ≤ start) :
    addMappedPart m_mapped start end_ type =
      emplacePart ⟨start, end_ - start, type⟩ m_mapped := by
  unfold addMappedPart emplacePart
  by_cases hlt : start < end_
  · have hend : start + (end_ - start) = end_ := by omega
    have hpos : lo (⟨start, end_ - start, type⟩ : MappedRegion) <
        hi (⟨start, end_ - start, type⟩ : MappedRegion) := by
      show start < start + (end_ - start)
      omega
    rw [if_pos hlt, if_pos hpos]
    exact addMappedUnlocked_apart ho hp type (by omega) (by omega) fun c hc => by
      rw [hend]
      exact hapart c hc
  · have hneg : ¬ lo (⟨start, end_ - start, type⟩ : MappedRegion) <
        hi (⟨start, end_ - start, type⟩ : MappedRegion) := by
      show ¬ start < start + (end_ - start)
      omega
    rw [if_neg hlt, if_neg hneg]

theorem removeMappedRound (h : MappedWf m_mapped) {original : MappedRegion}
    (hmem : original ∈ m_mapped) {current part_end : ℕ} (hlo : original.vaddr ≤ current)
    (hlt : current < part_end) (hhi : part_end ≤ original.vaddr + original.size) :
    ∃ m', ((addMappedPart (eraseAt original.vaddr m_mapped) original.vaddr current
        original.type).bind fun m_mapped =>
      addMappedPart m_mapped part_end (original.vaddr + original.size) original.type) =
        some m' ∧ MappedWf m' ∧
      (∀ c ∈ m_mapped, c.vaddr ≠ original.vaddr → c ∈ m') ∧
      ∀ x, typeAt m' x = if current ≤ x ∧ x < part_end then none else typeAt m_mapped x := by
  have hfit := h.fits hmem
  have hclear := h.ordered.clear_eraseAt h.proper hmem
  have hclear' : ∀ c ∈ eraseAt original.vaddr m_mapped,
      original.vaddr + original.size ≤ lo c ∨ hi c ≤ original.vaddr := hclear
  obtain ⟨l1, h1, ho1, hp1, hm1, -⟩ := emplacePart_spec MappedRegion.attr
    (⟨original.vaddr, current - original.vaddr, original.type⟩ : MappedRegion)
    (h.ordered.eraseAt original.vaddr) (h.proper.eraseAt original.vaddr) fun c hc => by
      show original.vaddr + (current - original.vaddr) ≤ lo c ∨ hi c ≤ original.vaddr
      rcases hclear' c hc with h' | h' <;> omega
  have hright : ∀ c ∈ l1, original.vaddr + original.size ≤ lo c ∨ hi c ≤ part_end := by
    intro c hc
    rcases (hm1 c).mp hc with ⟨rfl, -⟩ | hc
    · right
      show original.vaddr + (current - original.vaddr) ≤ part_end
      omega
    · rcases hclear' c hc with h' | h' <;> omega
  obtain ⟨m', hcarve, ho, hp, hm, hview⟩ := carve_spec MappedRegion.attr h.ordered h.proper
    (⟨original.vaddr, current - original.vaddr, original.type⟩ : MappedRegion)
    (⟨part_end, original.vaddr + original.size - part_end, original.type⟩ : MappedRegion)
    hmem hlo hlt hhi ⟨rfl, Nat.add_sub_cancel' hlo⟩ ⟨rfl, Nat.add_sub_cancel' hhi⟩
    (fun _ _ => rfl) (fun _ _ => rfl)
  refine ⟨m', ?_, ⟨ho, hp, fun x hx => ?_⟩, fun c hc hne => ?_, hview⟩
  · rw [addMappedPart_apart (h.ordered.eraseAt _) (h.proper.eraseAt _) _ (by omega)
      fun c hc => by rcases hclear' c hc with h' | h' <;> omega, h1, bind_some,
      addMappedPart_apart ho1 hp1 _ hfit hright]
    unfold carve at hcarve
    have h1' : emplacePart (⟨original.vaddr, current - original.vaddr, original.type⟩ :
        MappedRegion) (eraseAt (lo original) m_mapped) = some l1 := h1
    rw [h1'] at hcarve
    exact hcarve
  · have htype := typeAt_ne_none.mpr hx
    have hx' : typeAt m' x = if current ≤ x ∧ x < part_end then none else typeAt m_mapped x :=
      hview x
    rw [hx'] at htype
    split at htype
    · exact absurd rfl htype
    · exact h.bounded x (typeAt_ne_none.mp htype)
  · exact (hm c).mpr (.inr (.inr ⟨hc, hne⟩))

/-- **The loop of `RemoveMappedUnlocked`** goes through a tiled interval and takes
exactly that away. -/
theorem removeMappedLoop_spec (h : MappedWf m_mapped) {s e : ℕ}
    {parts : List (MappedRegion × ℕ × ℕ)} (htiles : Tiles m_mapped s e parts) {fuel : ℕ}
    (hfuel : parts.length ≤ fuel) :
    ∃ m', removeMappedLoop e fuel s m_mapped = some m' ∧ MappedWf m' ∧
      ∀ x, typeAt m' x = if s ≤ x ∧ x < e then none else typeAt m_mapped x := by
  induction parts generalizing m_mapped s fuel with
  | nil =>
    have hes : e ≤ s := htiles
    refine ⟨m_mapped, ?_, h, fun x => ?_⟩
    · cases fuel <;> exact if_neg (by omega)
    · rw [if_neg (by omega)]
  | cons p parts ih =>
    obtain ⟨original, f, t⟩ := p
    obtain ⟨hmem, rfl, hlo, hlt, ht, hrest⟩ := htiles
    obtain ⟨fuel, rfl⟩ : ∃ n, fuel = n + 1 := ⟨fuel - 1, by
      rw [length_cons] at hfuel
      omega⟩
    rw [length_cons] at hfuel
    have hlo' : original.vaddr ≤ f := hlo
    have ht' : t = min e (original.vaddr + original.size) := ht
    have hfind : findMappedContainingUnlocked m_mapped f = some original := by
      rw [findMappedContainingUnlocked_eq h]
      exact h.ordered.apart.at?_eq_some_iff.mpr ⟨hmem, hlo, by
        omega⟩
    obtain ⟨m1, hround, hwf, hkeep, hview⟩ :=
      removeMappedRound h hmem hlo' hlt (by omega)
    -- the regions of the parts to come are still there
    have hrest' : Tiles m1 t e parts := hrest.of_mem fun b f' t' hp => by
      obtain ⟨hb, h1, h2, h3, h4, h5⟩ := hrest.part hp
      refine hkeep b hb fun heq => ?_
      rw [h.ordered.eq_of_lo_eq h.proper hmem hb heq] at h5
      omega
    obtain ⟨m', hloop, hwf', hview'⟩ := ih hwf hrest' (le_of_succ_le_succ hfuel)
    refine ⟨m', ?_, hwf', fun x => ?_⟩
    · unfold removeMappedLoop
      simp only [if_pos (show f < e by omega), hfind, ← ht', hround, bind_some]
      exact hloop
    · rw [hview' x, hview x]
      by_cases h1 : t ≤ x ∧ x < e
      · rw [if_pos h1, if_pos ⟨by omega, h1.2⟩]
      · by_cases h2 : f ≤ x ∧ x < t
        · rw [if_neg h1, if_pos h2, if_pos ⟨h2.1, by omega⟩]
        · rw [if_neg h1, if_neg h2, if_neg (by omega)]

/-- **`RemoveMappedUnlocked`** does not abort; it takes a mapped interval away, or says
that it is not mapped in that way. -/
theorem removeMappedUnlocked_spec (h : MappedWf m_mapped)
    (hmapped : containsMappedUnlocked m_mapped vaddr size type = true) :
    ∃ m', removeMappedUnlocked m_mapped vaddr size type = some (some m') ∧ MappedWf m' ∧
      ∀ x, typeAt m' x =
        if vaddr ≤ x ∧ x < vaddr + size then none else typeAt m_mapped x := by
  obtain ⟨-, -, hall⟩ := (containsMappedUnlocked_iff h).mp hmapped
  have hwalk : (walk (at? m_mapped) m_mapped.length vaddr (vaddr + size)).isSome := by
    refine walk_isSome (sound_at? m_mapped) (ahead_le_length _ _) fun x h1 h2 => ?_
    rw [at?_isSome_iff, ← typeAt_ne_none]
    rw [hall x h1 h2]
    exact some_ne_none _
  obtain ⟨parts, hparts⟩ := isSome_iff_exists.mp hwalk
  obtain ⟨m', hloop, hwf, hview⟩ := removeMappedLoop_spec h
    (walk_tiles (sound_at? m_mapped) hparts) (walk_length hparts)
  refine ⟨m', ?_, hwf, hview⟩
  unfold removeMappedUnlocked
  rw [if_pos hmapped, hloop]
  rfl

end MagnusPS5.Kernel.GuestAddressSpace
