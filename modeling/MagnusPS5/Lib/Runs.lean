/-
Sets of addresses kept as lists of blocks.

A free list is a list of blocks in address order, none empty and no two touching
(`Canonical`). In that form an interval of its addresses lies inside one block
(`Canonical.exists_block`). The two edits of a free list keep the form: taking an
interval out of one block (`takeRun`) and adding an interval with everything it
reaches (`addRun`).
-/
import MagnusPS5.Lib.Keyed
import Mathlib

namespace MagnusPS5.Lib

open Spanned (lo hi)
open List

/-- A block of addresses. -/
structure Run where
  start : ℕ
  size : ℕ
  deriving DecidableEq

instance : Spanned Run where
  lo r := r.start
  hi r := r.start + r.size

/-- Blocks in address order, none of them empty, with a gap after each. -/
structure Canonical (l : List Run) : Prop where
  gaps : l.Pairwise fun a b => hi a < lo b
  proper : Proper l

theorem canonical_nil : Canonical [] :=
  ⟨.nil, nofun⟩

variable {r : Run}

theorem canonical_singleton (h : 0 < r.size) : Canonical [r] := by
  refine ⟨pairwise_singleton _ _, fun b hb => ?_⟩
  rw [mem_singleton.mp hb]
  show r.start < r.start + r.size
  omega

variable {l before : List Run} {s e size : ℕ}

theorem canonical_cons :
    Canonical (r :: l) ↔ (∀ b ∈ l, hi r < lo b) ∧ lo r < hi r ∧ Canonical l := by
  constructor
  · rintro ⟨hg, hp⟩
    obtain ⟨h1, h2⟩ := pairwise_cons.mp hg
    obtain ⟨h3, h4⟩ := proper_cons.mp hp
    exact ⟨h1, h3, h2, h4⟩
  · rintro ⟨h1, h3, h2, h4⟩
    exact ⟨pairwise_cons.mpr ⟨h1, h2⟩, proper_cons.mpr ⟨h3, h4⟩⟩

theorem canonical_append {l1 l2 : List Run} :
    Canonical (l1 ++ l2) ↔
      Canonical l1 ∧ Canonical l2 ∧ ∀ a ∈ l1, ∀ b ∈ l2, hi a < lo b := by
  constructor
  · rintro ⟨hg, hp⟩
    obtain ⟨h1, h2, h3⟩ := pairwise_append.mp hg
    obtain ⟨h4, h5⟩ := proper_append.mp hp
    exact ⟨⟨h1, h4⟩, ⟨h2, h5⟩, h3⟩
  · rintro ⟨⟨h1, h4⟩, ⟨h2, h5⟩, h3⟩
    exact ⟨pairwise_append.mpr ⟨h1, h2, h3⟩, proper_append.mpr ⟨h4, h5⟩⟩

theorem Canonical.split (h : Canonical l) (p : Run → Bool) :
    Canonical (l.takeWhile p) ∧ Canonical (l.dropWhile p) := by
  have hsplit : l.takeWhile p ++ l.dropWhile p = l := takeWhile_append_dropWhile
  exact (canonical_append.mp (hsplit.symm ▸ h)).imp id And.left

theorem Canonical.ordered (h : Canonical l) : Ordered l :=
  h.gaps.imp fun hab => Nat.le_of_lt hab

theorem Canonical.gap (h : Canonical l) {a b : Run} (ha : a ∈ l) (hb : b ∈ l)
    (hne : a ≠ b) : hi a < lo b ∨ hi b < lo a := by
  have hsymm : Std.Symm fun a b : Run => hi a < lo b ∨ hi b < lo a :=
    ⟨fun _ _ hab => hab.symm⟩
  have hpair : l.Pairwise fun a b => hi a < lo b ∨ hi b < lo a :=
    h.gaps.imp fun hab => .inl hab
  exact hpair.forall ha hb hne

/-- **An interval of addresses in the list lies inside one block.** -/
theorem Canonical.exists_block (h : Canonical l) (hse : s < e)
    (hall : ∀ x, s ≤ x → x < e → Occupied l x) : ∃ b ∈ l, lo b ≤ s ∧ e ≤ hi b := by
  obtain ⟨b, hb, hb1, hb2⟩ := hall s le_rfl hse
  refine ⟨b, hb, hb1, ?_⟩
  by_contra hend
  -- the address right after the block would lie in another one, which would touch it
  obtain ⟨c, hc, hc1, hc2⟩ := hall (hi b) (by omega) (by omega)
  have hne : b ≠ c := by
    rintro rfl
    exact absurd hc2 (lt_irrefl _)
  rcases h.gap hb hc hne with hgap | hgap <;> omega

theorem occupied_of_inside {b : Run} (hb : b ∈ l) {x : ℕ} (hs : lo b ≤ s)
    (he : e ≤ hi b) (hx1 : s ≤ x) (hx2 : x < e) : Occupied l x :=
  ⟨b, hb, by omega, by omega⟩

/-- A longest interval of addresses with a property. -/
structure MaximalRun (P : ℕ → Prop) (r : Run) : Prop where
  pos : 0 < r.size
  all : ∀ x, Covers r x → P x
  before : ∀ x, x + 1 = r.start → ¬ P x
  after : ¬ P (r.start + r.size)

/-- **The blocks are the longest intervals of addresses in the list.** -/
theorem Canonical.mem_iff_maximal (h : Canonical l) : r ∈ l ↔ MaximalRun (Occupied l) r := by
  constructor
  · intro hr
    have hproper : r.start < r.start + r.size := h.proper r hr
    -- a block next to this one would touch it
    have hgap : ∀ x, Occupied l x → x + 1 ≠ r.start ∧ x ≠ r.start + r.size := by
      rintro x ⟨c, hc, hc1, hc2⟩
      by_cases heq : c = r
      · rw [heq] at hc1 hc2
        have hlo : r.start ≤ x := hc1
        have hhi : x < r.start + r.size := hc2
        omega
      · have hhi : hi r = r.start + r.size := rfl
        have hlo : lo r = r.start := rfl
        rcases h.gap hc hr heq with hgap | hgap <;> omega
    exact ⟨by omega, fun x hx => ⟨r, hr, hx⟩, fun x hx hocc => (hgap x hocc).1 hx,
      fun hocc => (hgap _ hocc).2 rfl⟩
  · intro hmax
    have hpos := hmax.pos
    obtain ⟨b, hb, hb1, hb2⟩ := h.exists_block (s := r.start) (e := r.start + r.size) (by omega)
      fun x h1 h2 => hmax.all x ⟨h1, h2⟩
    have hlo : b.start = r.start := by
      by_contra hne
      have hlt : b.start < r.start := lt_of_le_of_ne hb1 hne
      have hend : r.start + r.size ≤ b.start + b.size := hb2
      refine hmax.before (r.start - 1) (by omega) ⟨b, hb, ?_, ?_⟩
      · show b.start ≤ r.start - 1
        omega
      · show r.start - 1 < b.start + b.size
        omega
    have hhi : b.start + b.size = r.start + r.size := by
      by_contra hne
      have hend : r.start + r.size ≤ b.start + b.size := hb2
      refine hmax.after ⟨b, hb, ?_, ?_⟩
      · show b.start ≤ r.start + r.size
        omega
      · show r.start + r.size < b.start + b.size
        omega
    have hbr : b = r := by
      cases b
      cases r
      simp only [Run.mk.injEq] at hlo hhi ⊢
      omega
    exact hbr ▸ hb

/-! ## Taking an interval out of one block -/

/-- The block between `before` and `after` loses the interval; what is left of it on
either side stays. -/
def takeRun (before : List Run) (r : Run) (after : List Run) (start size : ℕ) : List Run :=
  before ++ (if r.start < start then [⟨r.start, start - r.start⟩] else []) ++
    (if start + size < r.start + r.size then
      [⟨start + size, r.start + r.size - start - size⟩] else []) ++ after

theorem canonical_takeRun {after : List Run} {start : ℕ}
    (h : Canonical (before ++ r :: after)) (hs : r.start ≤ start)
    (he : start + size ≤ r.start + r.size) (hsize : 0 < size) :
    Canonical (takeRun before r after start size) := by
  obtain ⟨h1, h2, h3⟩ := canonical_append.mp h
  obtain ⟨h4, -, h5⟩ := canonical_cons.mp h2
  have hbefore : ∀ a ∈ before, a.start + a.size < r.start := fun a ha => h3 a ha r mem_cons_self
  have hafter : ∀ b ∈ after, r.start + r.size < b.start := h4
  have hcross : ∀ a ∈ before, ∀ b ∈ after, hi a < lo b :=
    fun a ha b hb => h3 a ha b (.tail _ hb)
  -- the two pieces, with the gap that was taken between them
  have hleft : ∀ b ∈ (if r.start < start then [(⟨r.start, start - r.start⟩ : Run)] else []),
      r.start < start ∧ b = ⟨r.start, start - r.start⟩ := by
    intro b hb
    split at hb
    · exact ⟨‹_›, mem_singleton.mp hb⟩
    · nomatch hb
  have hright : ∀ b ∈ (if start + size < r.start + r.size then
        [(⟨start + size, r.start + r.size - start - size⟩ : Run)] else []),
      start + size < r.start + r.size ∧ b = ⟨start + size, r.start + r.size - start - size⟩ := by
    intro b hb
    split at hb
    · exact ⟨‹_›, mem_singleton.mp hb⟩
    · nomatch hb
  refine canonical_append.mpr ⟨canonical_append.mpr ⟨canonical_append.mpr ⟨h1, ?_, ?_⟩, ?_, ?_⟩,
    h5, ?_⟩
  · split
    · exact canonical_singleton (by show 0 < start - r.start; omega)
    · exact canonical_nil
  · intro a ha b hb
    obtain ⟨-, rfl⟩ := hleft b hb
    exact hbefore a ha
  · split
    · exact canonical_singleton (by show 0 < r.start + r.size - start - size; omega)
    · exact canonical_nil
  · intro a ha b hb
    obtain ⟨hlt, rfl⟩ := hright b hb
    show a.start + a.size < start + size
    rcases mem_append.mp ha with ha | ha
    · have := hbefore a ha
      omega
    · obtain ⟨hlt', rfl⟩ := hleft a ha
      show r.start + (start - r.start) < start + size
      omega
  · intro a ha b hb
    have hb' := hafter b hb
    rcases mem_append.mp ha with ha | ha
    · rcases mem_append.mp ha with ha | ha
      · exact hcross a ha b hb
      · obtain ⟨hlt, rfl⟩ := hleft a ha
        show r.start + (start - r.start) < b.start
        omega
    · obtain ⟨hlt, rfl⟩ := hright a ha
      show start + size + (r.start + r.size - start - size) < b.start
      omega

theorem occupied_takeRun {after : List Run} {start : ℕ}
    (h : Canonical (before ++ r :: after)) (hs : r.start ≤ start)
    (he : start + size ≤ r.start + r.size) (x : ℕ) :
    Occupied (takeRun before r after start size) x ↔
      Occupied (before ++ r :: after) x ∧ ¬ (start ≤ x ∧ x < start + size) := by
  obtain ⟨-, h2, h3⟩ := canonical_append.mp h
  obtain ⟨h4, -, -⟩ := canonical_cons.mp h2
  have hbefore : Occupied before x → x < r.start := by
    rintro ⟨a, ha, -, hax⟩
    have hgap : hi a < r.start := h3 a ha r mem_cons_self
    omega
  have hafter : Occupied after x → r.start + r.size < x := by
    rintro ⟨b, hb, hbx, -⟩
    have hgap : r.start + r.size < lo b := h4 b hb
    omega
  have hleft : Occupied (if r.start < start then [(⟨r.start, start - r.start⟩ : Run)] else []) x ↔
      r.start ≤ x ∧ x < start := by
    split
    · rw [occupied_cons, or_iff_left (occupied_nil x)]
      show r.start ≤ x ∧ x < r.start + (start - r.start) ↔ _
      omega
    · exact iff_of_false (occupied_nil x) (by omega)
  have hright : Occupied (if start + size < r.start + r.size then
      [(⟨start + size, r.start + r.size - start - size⟩ : Run)] else []) x ↔
      start + size ≤ x ∧ x < r.start + r.size := by
    split
    · rw [occupied_cons, or_iff_left (occupied_nil x)]
      show start + size ≤ x ∧ x < start + size + (r.start + r.size - start - size) ↔ _
      omega
    · exact iff_of_false (occupied_nil x) (by omega)
  have hr : Covers r x ↔ r.start ≤ x ∧ x < r.start + r.size := .rfl
  unfold takeRun
  rw [occupied_append, occupied_append, occupied_append, occupied_append, occupied_cons, hleft,
    hright, hr]
  constructor
  · rintro (((hx | hx) | hx) | hx)
    · exact ⟨.inl hx, by have := hbefore hx; omega⟩
    · exact ⟨.inr (.inl (by omega)), by omega⟩
    · exact ⟨.inr (.inl (by omega)), by omega⟩
    · exact ⟨.inr (.inr hx), by have := hafter hx; omega⟩
  · rintro ⟨hx | hx | hx, hnot⟩
    · exact .inl (.inl (.inl hx))
    · by_cases hlt : x < start
      · exact .inl (.inl (.inr ⟨hx.1, hlt⟩))
      · exact .inl (.inr ⟨by omega, hx.2⟩)
    · exact .inr hx

/-! ## Adding an interval -/

/-- The blocks that an interval ending at `e` reaches are swallowed, one after the
other; the end moves along. -/
def swallow (e : ℕ) : List Run → ℕ × List Run
  | [] => (e, [])
  | b :: rest => if b.start ≤ e then swallow (max e (b.start + b.size)) rest else (e, b :: rest)

/-- The interval is joined with the block before it, if that reaches it, and with
every block after it that it reaches. -/
def addRun (l : List Run) (start size : ℕ) : List Run :=
  let before := l.takeWhile fun b => b.start < start
  let next := l.dropWhile fun b => b.start < start
  match before.getLast? with
  | some previous =>
    if start ≤ previous.start + previous.size then
      let (e, rest) := swallow (max (start + size) (previous.start + previous.size)) next
      before.dropLast ++ ⟨previous.start, e - previous.start⟩ :: rest
    else
      let (e, rest) := swallow (start + size) next
      before ++ ⟨start, e - start⟩ :: rest
  | none =>
    let (e, rest) := swallow (start + size) next
    before ++ ⟨start, e - start⟩ :: rest

theorem swallow_spec (h : Canonical l) (hse : s ≤ e) (hfrom : ∀ b ∈ l, s ≤ lo b) :
    e ≤ (swallow e l).1 ∧ Canonical (swallow e l).2 ∧
      (∀ b ∈ (swallow e l).2, b ∈ l ∧ (swallow e l).1 < lo b) ∧
      ∀ x, (s ≤ x ∧ x < (swallow e l).1) ∨ Occupied (swallow e l).2 x ↔
        (s ≤ x ∧ x < e) ∨ Occupied l x := by
  induction l generalizing e with
  | nil => exact ⟨le_refl _, canonical_nil, fun b hb => absurd hb not_mem_nil, fun _ => .rfl⟩
  | cons b l ih =>
    obtain ⟨h1, h2, h3⟩ := canonical_cons.mp h
    unfold swallow
    by_cases hreach : b.start ≤ e
    · rw [if_pos hreach]
      obtain ⟨g1, g2, g3, g4⟩ := ih h3 (e := max e (b.start + b.size)) (by omega)
        fun c hc => hfrom c (.tail _ hc)
      refine ⟨by omega, g2, fun c hc => ⟨.tail _ (g3 c hc).1, (g3 c hc).2⟩, ?_⟩
      intro x
      have hb : Covers b x ↔ b.start ≤ x ∧ x < b.start + b.size := .rfl
      have hsb : s ≤ b.start := hfrom b mem_cons_self
      rw [g4 x, occupied_cons, hb, ← or_assoc]
      refine or_congr_left ?_
      omega
    · rw [if_neg hreach]
      refine ⟨le_refl _, h, ?_, fun _ => .rfl⟩
      intro c hc
      refine ⟨hc, ?_⟩
      rcases mem_cons.mp hc with rfl | hc
      · exact Nat.lt_of_not_le hreach
      · have hgap : b.start + b.size < lo c := h1 c hc
        omega

/-- **An interval between two lists** that it does not touch. -/
theorem between_spec {next : List Run} (hbefore : Canonical before) (hnext : Canonical next)
    (hse : s < e) (hleft : ∀ a ∈ before, hi a < s) (hright : ∀ b ∈ next, e < lo b) :
    Canonical (before ++ ⟨s, e - s⟩ :: next) ∧
      ∀ x, Occupied (before ++ ⟨s, e - s⟩ :: next) x ↔
        Occupied before x ∨ (s ≤ x ∧ x < e) ∨ Occupied next x := by
  have hend : s + (e - s) = e := by omega
  constructor
  · refine canonical_append.mpr ⟨hbefore, canonical_cons.mpr ⟨?_, ?_, hnext⟩, ?_⟩
    · intro b hb
      show s + (e - s) < lo b
      rw [hend]
      exact hright b hb
    · show s < s + (e - s)
      omega
    · intro a ha b hb
      have hs := hleft a ha
      rcases mem_cons.mp hb with rfl | hb
      · exact hs
      · have := hright b hb
        omega
  · intro x
    have hcov : Covers (⟨s, e - s⟩ : Run) x ↔ s ≤ x ∧ x < e := by
      show s ≤ x ∧ x < s + (e - s) ↔ _
      rw [hend]
    rw [occupied_append, occupied_cons, hcov]

theorem join_spec {next : List Run} (hbefore : Canonical before)
    (hnext : Canonical next) (hse : s < e) (hleft : ∀ a ∈ before, hi a < s)
    (hright : ∀ b ∈ next, s ≤ lo b) :
    Canonical (before ++ ⟨s, (swallow e next).1 - s⟩ :: (swallow e next).2) ∧
      ∀ x, Occupied (before ++ ⟨s, (swallow e next).1 - s⟩ :: (swallow e next).2) x ↔
        Occupied before x ∨ (s ≤ x ∧ x < e) ∨ Occupied next x := by
  obtain ⟨h1, h2, h3, h4⟩ := swallow_spec hnext hse.le hright
  obtain ⟨g1, g2⟩ := between_spec hbefore h2 (lt_of_lt_of_le hse h1) hleft fun b hb => (h3 b hb).2
  exact ⟨g1, fun x => by rw [g2 x, h4 x]⟩

/-- **Adding an interval to a free list** keeps it canonical and adds exactly the
addresses of the interval. -/
theorem addRun_spec (h : Canonical l) (start : ℕ) (hsize : 0 < size) :
    Canonical (addRun l start size) ∧
      ∀ x, Occupied (addRun l start size) x ↔
        Occupied l x ∨ (start ≤ x ∧ x < start + size) := by
  have hsplit : l.takeWhile (fun b => decide (b.start < start)) ++
      l.dropWhile (fun b => decide (b.start < start)) = l := takeWhile_append_dropWhile
  obtain ⟨hb, hn, hcross⟩ := canonical_append.mp (hsplit.symm ▸ h)
  have hnext : ∀ b ∈ l.dropWhile (fun b => decide (b.start < start)), start ≤ lo b :=
    fun b hb => h.ordered.le_lo_of_mem_dropWhile h.proper hb
  have hbelow : ∀ a ∈ l.takeWhile (fun b => decide (b.start < start)), a.start < start :=
    fun a ha => lo_lt_of_mem_takeWhile ha
  have hocc : ∀ x, Occupied l x ↔ Occupied (l.takeWhile fun b => decide (b.start < start)) x ∨
      Occupied (l.dropWhile fun b => decide (b.start < start)) x := by
    intro x
    rw [← occupied_append, hsplit]
  unfold addRun
  generalize l.takeWhile (fun b => decide (b.start < start)) = before at *
  generalize l.dropWhile (fun b => decide (b.start < start)) = next at *
  -- the case of no block before the interval that reaches it
  have halone : (∀ a ∈ before, hi a < start) →
      Canonical (before ++ ⟨start, (swallow (start + size) next).1 - start⟩ ::
          (swallow (start + size) next).2) ∧
        ∀ x, Occupied (before ++ ⟨start, (swallow (start + size) next).1 - start⟩ ::
            (swallow (start + size) next).2) x ↔
          Occupied l x ∨ (start ≤ x ∧ x < start + size) := by
    intro hleft
    obtain ⟨g1, g2⟩ := join_spec hb hn (s := start) (e := start + size) (by omega) hleft hnext
    refine ⟨g1, fun x => ?_⟩
    rw [g2 x, hocc x]
    tauto
  cases hlast : before.getLast? with
  | none =>
    obtain rfl := getLast?_eq_none_iff.mp hlast
    exact halone fun a ha => nomatch ha
  | some previous =>
    obtain ⟨front, rfl⟩ := getLast?_eq_some_iff.mp hlast
    obtain ⟨hfront, hprev, hfp⟩ := canonical_append.mp hb
    have hp : previous.start < previous.start + previous.size :=
      hprev.proper previous (mem_singleton_self _)
    by_cases hreach : start ≤ previous.start + previous.size
    · simp only [hlast, if_pos hreach, dropLast_concat]
      have hpn : ∀ b ∈ next, previous.start + previous.size < lo b := fun b hb =>
        hcross previous (mem_append_right _ (mem_singleton_self _)) b hb
      obtain ⟨g1, g2⟩ := join_spec hfront hn (s := previous.start)
        (e := max (start + size) (previous.start + previous.size)) (by omega)
        (fun a ha => hfp a ha previous (mem_singleton_self _))
        (fun b hb => by have := hpn b hb; omega)
      refine ⟨g1, fun x => ?_⟩
      have hcov : Covers previous x ↔
          previous.start ≤ x ∧ x < previous.start + previous.size := .rfl
      rw [g2 x, hocc x, occupied_append, occupied_cons, or_iff_left (occupied_nil x), hcov]
      -- the interval begins inside or right behind the previous block
      by_cases hx : previous.start ≤ x ∧ x < max (start + size) (previous.start + previous.size)
      · refine iff_of_true (.inr (.inl hx)) ?_
        by_cases hxp : x < previous.start + previous.size
        · exact .inl (.inl (.inr ⟨hx.1, hxp⟩))
        · exact .inr ⟨by omega, by omega⟩
      · constructor
        · rintro (h' | h' | h')
          · exact .inl (.inl (.inl h'))
          · exact absurd h' hx
          · exact .inl (.inr h')
        · rintro (((h' | h') | h') | h')
          · exact .inl h'
          · exact absurd ⟨h'.1, by omega⟩ hx
          · exact .inr (.inr h')
          · by_cases hlow : previous.start ≤ x
            · exact absurd ⟨hlow, by omega⟩ hx
            · -- the previous block starts below the interval
              have hlt := hbelow previous (mem_append_right _ (mem_singleton_self _))
              omega
    · simp only [hlast, if_neg hreach]
      refine halone fun a ha => ?_
      rcases mem_append.mp ha with ha | ha
      · have hgap : hi a < previous.start := hfp a ha previous (mem_singleton_self _)
        omega
      · rw [mem_singleton.mp ha]
        exact Nat.lt_of_not_le hreach

end MagnusPS5.Lib
