/-
Cutting an interval out of a table: the part of each item inside the interval is
edited or dropped and the parts outside are kept, split off as items of their own.
-/
import MagnusPS5.Lib.Spans

namespace MagnusPS5.Lib

open Spanned (lo hi)
open List Option

/-! ## Cutting an interval out of every item -/

/-- Items that can be narrowed. `slice b s e` is the part of `b` between `s` and
`e`; it says of each of its addresses what `b` says of it. -/
class Sliced (β : Type*) (α : outParam Type*) extends Spanned β where
  attr : β → ℕ → α
  slice : β → ℕ → ℕ → β
  lo_slice : ∀ b s e, lo (slice b s e) = s
  hi_slice : ∀ b s e, s ≤ e → hi (slice b s e) = e
  attr_slice : ∀ b s e x, lo b ≤ s → s ≤ x → attr (slice b s e) x = attr b x

section Sliced

open Sliced (attr slice lo_slice hi_slice attr_slice)

variable {α β : Type*} [Sliced β α]

/-- The part of an item between `s` and `e`, nothing if that part is empty. -/
def piece (b : β) (s e : ℕ) : List β := if e ≤ s then [] else [slice b s e]

/-- The pieces an item falls into when the interval `[s, e)` is cut out of it and
the part inside is handed to `f`. An item clear of the interval stays whole. -/
def cut (s e : ℕ) (f : β → List β) (b : β) : List β :=
  if lo b < e ∧ s < hi b then
    piece b (lo b) (max s (lo b)) ++ f (slice b (max s (lo b)) (min e (hi b))) ++
      piece b (min e (hi b)) (hi b)
  else [b]

variable {s e : ℕ}

theorem covers_slice (b : β) (hse : s ≤ e) (x : ℕ) : Covers (slice b s e) x ↔ s ≤ x ∧ x < e := by
  rw [Covers, lo_slice, hi_slice b s e hse]

theorem view_piece (b : β) (s e x : ℕ) (hs : lo b ≤ s) :
    view attr (piece b s e) x = if s ≤ x ∧ x < e then some (attr b x) else none := by
  unfold piece
  by_cases hse : e ≤ s
  · rw [if_pos hse, view_nil, if_neg (by omega)]
  · rw [if_neg hse, view_singleton]
    by_cases hx : s ≤ x ∧ x < e
    · rw [if_pos ((covers_slice b (by omega) x).mpr hx), if_pos hx, attr_slice b s e x hs hx.1]
    · rw [if_neg fun h => hx ((covers_slice b (by omega) x).mp h), if_neg hx]

theorem mem_piece {b c : β} (h : c ∈ piece b s e) : lo c = s ∧ hi c = e ∧ s < e := by
  unfold piece at h
  split at h
  · exact nomatch h
  · rw [mem_singleton.mp h]
    exact ⟨lo_slice _ _ _, hi_slice _ _ _ (by omega), by omega⟩

variable {f : β → List β}

/-- What a cut leaves of one item, address by address: outside the interval the
old attribute, inside it what `f` makes of the attribute. -/
theorem view_cut_one {g : α → Option α} {b : β}
    (hf : ∀ c : β, ∀ x, view attr (f c) x = if Covers c x then g (attr c x) else none)
    (hse : s < e) (hb : lo b < hi b) (x : ℕ) :
    view attr (cut s e f b) x =
      if Covers b x then (if s ≤ x ∧ x < e then g (attr b x) else some (attr b x))
      else none := by
  unfold cut
  by_cases hmeet : lo b < e ∧ s < hi b
  · -- the middle piece is the overlap of the item with the interval
    have hmid := covers_slice b (s := max s (lo b)) (e := min e (hi b)) (by omega) x
    rw [if_pos hmeet, view_append, view_append, view_piece _ _ _ _ le_rfl,
      view_piece _ _ _ _ (by omega), hf]
    by_cases hx : Covers b x
    · obtain ⟨hx1, hx2⟩ := id hx
      rw [if_pos hx]
      by_cases hin : s ≤ x ∧ x < e
      · rw [if_neg (by omega), if_pos (hmid.mpr (by omega)), if_neg (by omega), if_pos hin,
          attr_slice b _ _ x (by omega) (by omega), none_or, or_none]
      · rw [if_neg (c := Covers (slice b _ _) x) fun h => hin (by have := hmid.mp h; omega),
          if_neg hin, or_none]
        by_cases hleft : x < s
        · rw [if_pos (by omega)]
          rfl
        · rw [if_neg (by omega), if_pos (by omega)]
          rfl
    · have hout : ¬ (lo b ≤ x ∧ x < hi b) := hx
      have hmid' : ¬ Covers (slice b (max s (lo b)) (min e (hi b))) x := by
        intro h
        have := hmid.mp h
        omega
      rw [if_neg hx, if_neg (by omega), if_neg hmid', if_neg (by omega)]
      rfl
  · rw [if_neg hmeet, view_singleton]
    by_cases hx : Covers b x
    · have hout : ¬ (s ≤ x ∧ x < e) := by
        obtain ⟨hx1, hx2⟩ := hx
        omega
      rw [if_pos hx, if_pos hx, if_neg hout]
    · rw [if_neg hx, if_neg hx]

/-- **Cutting a table.** Outside the interval the table reads as before, inside
it reads what `f` makes of it. -/
theorem Apart.view_cut {g : α → Option α} {l : List β} (h : Apart l) (hp : Proper l)
    (hf : ∀ c : β, ∀ x, view attr (f c) x = if Covers c x then g (attr c x) else none)
    (hse : s < e) (x : ℕ) :
    view attr (l.flatMap (cut s e f)) x =
      if s ≤ x ∧ x < e then (view attr l x).bind g else view attr l x := by
  rw [h.view_flatMap (cut s e f) (fun x a => if s ≤ x ∧ x < e then g a else some a)
    fun b hb x => view_cut_one hf hse (hp b hb) x]
  by_cases hx : s ≤ x ∧ x < e
  · simp only [if_pos hx]
  · simp only [if_neg hx, bind_fun_some]

section

variable (hf : ∀ d : β, ∀ c ∈ f d, lo d ≤ lo c ∧ hi c ≤ hi d)

include hf

theorem inside_cut {b c : β}
    (hse : s < e) (hb : lo b < hi b) (hc : c ∈ cut s e f b) : lo b ≤ lo c ∧ hi c ≤ hi b := by
  unfold cut at hc
  split at hc
  · rcases mem_append.mp hc with hc | hc
    · rcases mem_append.mp hc with hc | hc
      · have := mem_piece hc
        omega
      · have := hf _ c hc
        rw [lo_slice, hi_slice _ _ _ (by omega)] at this
        omega
    · have := mem_piece hc
      omega
  · rw [mem_singleton.mp hc]
    exact ⟨le_refl _, le_refl _⟩

theorem ordered_cut {b : β}
    (ho : ∀ d : β, Ordered (f d)) (hse : s < e) : Ordered (cut s e f b) := by
  have hpiece : ∀ s' e', Ordered (piece b s' e') := by
    intro s' e'
    unfold piece
    split
    · exact .nil
    · exact pairwise_singleton _ _
  unfold cut
  split
  · refine ordered_append.mpr ⟨ordered_append.mpr ⟨hpiece _ _, ho _, ?_⟩, hpiece _ _, ?_⟩
    · intro c hc d hd
      have h1 := mem_piece hc
      have h2 := hf _ d hd
      rw [lo_slice] at h2
      omega
    · intro c hc d hd
      have h2 := mem_piece hd
      rcases mem_append.mp hc with hc | hc
      · have h1 := mem_piece hc
        omega
      · have h1 := hf _ c hc
        rw [hi_slice _ _ _ (by omega)] at h1
        omega
  · exact pairwise_singleton _ _

end

theorem proper_cut {b : β} (hf : ∀ d : β, lo d < hi d → Proper (f d))
    (hse : s < e) (hb : lo b < hi b) : Proper (cut s e f b) := by
  intro c hc
  unfold cut at hc
  split at hc
  · rcases mem_append.mp hc with hc | hc
    · rcases mem_append.mp hc with hc | hc
      · have := mem_piece hc
        omega
      · refine hf _ ?_ c hc
        rw [lo_slice, hi_slice _ _ _ (by omega)]
        omega
    · have := mem_piece hc
      omega
  · rw [mem_singleton.mp hc]
    exact hb

end Sliced

end MagnusPS5.Lib
