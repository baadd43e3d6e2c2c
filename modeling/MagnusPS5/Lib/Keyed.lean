/-
Ordered maps keyed by the start of an item.

A lookup by start splits an ordered list into the items before a position and the
items from it on. The file says what such a lookup can find (`meets_iff`,
`floor?_filter`), and what insertion (`place`, `emplace`) and erasure (`eraseAt`)
make of the list and of its reading.
-/
import MagnusPS5.Lib.Spans

namespace MagnusPS5.Lib

open Spanned (lo hi)
open List Ordered Option

section Keyed

variable {α β : Type*} [Spanned β] {attr : β → ℕ → α}

/-! ## Finding an item by its start -/

variable {l : List β} {x s e : ℕ} {b c : β}

theorem lo_lt_of_mem_takeWhile (h : b ∈ l.takeWhile fun c => decide (lo c < x)) : lo b < x := by
  simpa using mem_takeWhile_imp h

section

variable (h : Ordered l) (hp : Proper l)

include h hp

theorem Ordered.le_lo_of_mem_dropWhile
    (hb : b ∈ l.dropWhile fun c => decide (lo c < x)) : x ≤ lo b := by
  induction l with
  | nil => nomatch hb
  | cons c l ih =>
    obtain ⟨hc, hl⟩ := ordered_cons.mp h
    obtain ⟨hpc, hpl⟩ := proper_cons.mp hp
    by_cases hcx : lo c < x
    · rw [dropWhile_cons_of_pos (by simpa using hcx)] at hb
      exact ih hl hpl hb
    · rw [dropWhile_cons_of_neg (by simpa using hcx)] at hb
      rcases mem_cons.mp hb with rfl | hb
      · exact Nat.le_of_not_lt hcx
      · have := hc b hb
        omega

theorem Ordered.hi_le_getLast {a : β}
    (ha : l.getLast? = some a) (hb : b ∈ l) : lo b ≤ lo a ∧ hi b ≤ hi a := by
  obtain ⟨front, rfl⟩ := getLast?_eq_some_iff.mp ha
  rcases mem_append.mp hb with hb | hb
  · obtain ⟨-, -, hcross⟩ := ordered_append.mp h
    have h1 := hcross b hb a (mem_singleton_self a)
    have h2 := hp a (mem_append_right _ (mem_singleton_self a))
    have h3 := hp b (mem_append_left _ hb)
    omega
  · rw [mem_singleton.mp hb]
    exact ⟨le_refl _, le_refl _⟩

theorem Ordered.head_lo_le {a : β} (ha : l.head? = some a) (hb : b ∈ l) : lo a ≤ lo b := by
  obtain ⟨rest, rfl⟩ := head?_eq_some_iff.mp ha
  obtain ⟨hrest, -⟩ := ordered_cons.mp h
  rcases mem_cons.mp hb with rfl | hb
  · exact le_refl _
  · have h1 := hrest b hb
    have h2 := hp a mem_cons_self
    omega

/-- **Only the neighbours of a position can meet an interval that starts there.**
The first item from the position on or the last one before it meets `[s, e)` as
soon as any item of the list does. -/
theorem Ordered.meets_iff (hse : s < e) : (∃ b ∈ l, lo b < e ∧ s < hi b) ↔
      (∃ b, (l.dropWhile fun c => decide (lo c < s)).head? = some b ∧ lo b < e ∧ s < hi b) ∨
      ∃ b, (l.takeWhile fun c => decide (lo c < s)).getLast? = some b ∧ lo b < e ∧ s < hi b := by
  have hsplit : l.takeWhile (fun c => decide (lo c < s)) ++
      l.dropWhile (fun c => decide (lo c < s)) = l := takeWhile_append_dropWhile
  obtain ⟨ho1, ho2, -⟩ := ordered_append.mp (hsplit.symm ▸ h)
  obtain ⟨hp1, hp2⟩ := proper_append.mp (hsplit.symm ▸ hp)
  constructor
  · rintro ⟨b, hb, hbe, hsb⟩
    rw [← hsplit] at hb
    rcases mem_append.mp hb with hb | hb
    · right
      obtain ⟨a, ha⟩ := ne_none_iff_exists'.mp (mt getLast?_eq_none_iff.mp (ne_nil_of_mem hb))
      have h1 := ho1.hi_le_getLast hp1 ha hb
      have h2 := lo_lt_of_mem_takeWhile (mem_of_getLast? ha)
      exact ⟨a, ha, by omega, by omega⟩
    · left
      obtain ⟨a, ha⟩ := ne_none_iff_exists'.mp (mt head?_eq_none_iff.mp (ne_nil_of_mem hb))
      have h1 := ho2.head_lo_le hp2 ha hb
      have h2 := h.le_lo_of_mem_dropWhile hp (mem_of_mem_head? ha)
      have h3 := hp2 a (mem_of_mem_head? ha)
      exact ⟨a, ha, by omega, by omega⟩
  · rintro (⟨b, hb, hmeet⟩ | ⟨b, hb, hmeet⟩)
    · exact ⟨b, hsplit ▸ mem_append_right _ (mem_of_mem_head? hb), hmeet⟩
    · exact ⟨b, hsplit ▸ mem_append_left _ (mem_of_getLast? hb), hmeet⟩

/-- **Only the last item in front of an end can meet an interval.** -/
theorem Ordered.getLast_meets_iff : (∃ b ∈ l, lo b < e ∧ s < hi b) ↔
      ∃ b, (l.takeWhile fun c => decide (lo c < e)).getLast? = some b ∧ s < hi b := by
  have hsplit : l.takeWhile (fun c => decide (lo c < e)) ++
      l.dropWhile (fun c => decide (lo c < e)) = l := takeWhile_append_dropWhile
  obtain ⟨ho1, -, -⟩ := ordered_append.mp (hsplit.symm ▸ h)
  obtain ⟨hp1, -⟩ := proper_append.mp (hsplit.symm ▸ hp)
  constructor
  · rintro ⟨b, hb, hbe, hsb⟩
    rw [← hsplit] at hb
    rcases mem_append.mp hb with hb | hb
    · obtain ⟨a, ha⟩ := ne_none_iff_exists'.mp (mt getLast?_eq_none_iff.mp (ne_nil_of_mem hb))
      exact ⟨a, ha, lt_of_lt_of_le hsb (ho1.hi_le_getLast hp1 ha hb).2⟩
    · have hle := h.le_lo_of_mem_dropWhile hp hb
      omega
  · rintro ⟨b, hb, hsb⟩
    have hmem := mem_of_getLast? hb
    exact ⟨b, hsplit ▸ mem_append_left _ hmem, lo_lt_of_mem_takeWhile hmem, hsb⟩

theorem Ordered.at?_eq_getLast (x : ℕ) :
    at? l x = ((l.takeWhile fun c => decide (lo c < x + 1)).getLast?).filter
      fun b => decide (x < hi b) := by
  have hsplit : l.takeWhile (fun c => decide (lo c < x + 1)) ++
      l.dropWhile (fun c => decide (lo c < x + 1)) = l := takeWhile_append_dropWhile
  obtain ⟨ho1, -, -⟩ := ordered_append.mp (hsplit.symm ▸ h)
  obtain ⟨hp1, -⟩ := proper_append.mp (hsplit.symm ▸ hp)
  apply Option.ext
  intro b
  rw [h.apart.at?_eq_some_iff, filter_eq_some_iff, decide_eq_true_eq]
  constructor
  · rintro ⟨hb, hb1, hb2⟩
    have hmem : b ∈ l.takeWhile fun c => decide (lo c < x + 1) := by
      rw [← hsplit] at hb
      rcases mem_append.mp hb with hb | hb
      · exact hb
      · have := h.le_lo_of_mem_dropWhile hp hb
        omega
    obtain ⟨a, ha⟩ := ne_none_iff_exists'.mp (mt getLast?_eq_none_iff.mp (ne_nil_of_mem hmem))
    have h1 := lo_lt_of_mem_takeWhile (mem_of_getLast? ha)
    have h2 := ho1.hi_le_getLast hp1 ha hmem
    have hab : b = a := ho1.apart.eq_of_covers hmem (mem_of_getLast? ha)
      ⟨hb1, hb2⟩ ⟨by omega, by omega⟩
    exact ⟨hab ▸ ha, hb2⟩
  · rintro ⟨hb, hb2⟩
    have hmem := mem_of_getLast? hb
    have := lo_lt_of_mem_takeWhile hmem
    exact ⟨hsplit ▸ mem_append_left _ hmem, by omega, hb2⟩

end

/-- The last item that starts at or before an address. -/
def floor? (l : List β) (x : ℕ) : Option β := (l.takeWhile fun b => lo b ≤ x).getLast?

theorem mem_of_floor? (h : floor? l x = some b) : b ∈ l ∧ lo b ≤ x := by
  have hmem := mem_of_getLast? h
  have hle : lo b ≤ x := by simpa using mem_takeWhile_imp hmem
  exact ⟨( takeWhile_prefix _).subset hmem, hle⟩

theorem Ordered.floor?_filter (h : Ordered l) (hp : Proper l) (x : ℕ) :
    (floor? l x).filter (fun b => decide (x < hi b)) = at? l x := by
  rw [h.at?_eq_getLast hp x]
  simp only [floor?, Nat.lt_succ_iff]

theorem Ordered.floor?_of_covers (h : Ordered l) (hp : Proper l)
    (hb : b ∈ l) (hx : Covers b x) : floor? l x = some b := by
  have hat : at? l x = some b := h.apart.at?_eq_some_iff.mpr ⟨hb, hx⟩
  rw [← h.floor?_filter hp x] at hat
  exact (filter_eq_some_iff.mp hat).1

/-! ## Putting an item in its place -/

/-- Put an item where its start belongs. -/
def place (b : β) (l : List β) : List β :=
  l.takeWhile (fun c => lo c < lo b) ++ b :: l.dropWhile fun c => lo c < lo b

@[simp] theorem mem_place : c ∈ place b l ↔ c = b ∨ c ∈ l := by
  have hsplit : l.takeWhile (fun c => decide (lo c < lo b)) ++
      l.dropWhile (fun c => decide (lo c < lo b)) = l := takeWhile_append_dropWhile
  have hmem : c ∈ l ↔ c ∈ l.takeWhile (fun c => decide (lo c < lo b)) ∨
      c ∈ l.dropWhile (fun c => decide (lo c < lo b)) := by
    rw [← mem_append, hsplit]
  unfold place
  rw [mem_append, mem_cons, hmem]
  tauto

theorem occupied_place : Occupied (place b l) x ↔ Covers b x ∨ Occupied l x := by
  simp only [Occupied, mem_place, or_and_right, exists_or, exists_eq_left]

theorem proper_place (hb : lo b < hi b) (hp : Proper l) : Proper (place b l) := by
  intro c hc
  rcases mem_place.mp hc with rfl | hc
  · exact hb
  · exact hp c hc

theorem Ordered.place (h : Ordered l) (hp : Proper l)
    (hb : lo b < hi b) (hapart : ∀ c ∈ l, hi b ≤ lo c ∨ hi c ≤ lo b) : Ordered (place b l) := by
  have hsplit : l.takeWhile (fun c => decide (lo c < lo b)) ++
      l.dropWhile (fun c => decide (lo c < lo b)) = l := takeWhile_append_dropWhile
  obtain ⟨ho1, ho2, ho3⟩ := ordered_append.mp (hsplit.symm ▸ h)
  refine ordered_append.mpr ⟨ho1, ordered_cons.mpr ⟨?_, ho2⟩, ?_⟩
  · intro c hc
    have h1 := h.le_lo_of_mem_dropWhile hp hc
    have hcl : c ∈ l := hsplit ▸ mem_append_right _ hc
    have h2 := hp c hcl
    rcases hapart c hcl with h3 | h3 <;> omega
  · intro a ha c hc
    rcases mem_cons.mp hc with rfl | hc
    · have h1 := lo_lt_of_mem_takeWhile ha
      have hal : a ∈ l := hsplit ▸ mem_append_left _ ha
      rcases hapart a hal with h3 | h3 <;> omega
    · exact ho3 a ha c hc

theorem place_append {before after : List β} (hbefore : ∀ a ∈ before, lo a < lo b)
    (hafter : ∀ c ∈ after, lo b ≤ lo c) : place b (before ++ after) = before ++ b :: after := by
  unfold place
  have h1 : (before ++ after).takeWhile (fun c => decide (lo c < lo b)) = before := by
    rw [takeWhile_append_of_pos fun a ha => by simpa using hbefore a ha]
    cases after with
    | nil => simp
    | cons c after =>
      have hc := hafter c mem_cons_self
      rw [takeWhile_cons_of_neg (by simpa using hc), append_nil]
  have h2 : (before ++ after).dropWhile (fun c => decide (lo c < lo b)) = after := by
    have hsplit := takeWhile_append_dropWhile (p := fun c => decide (lo c < lo b))
      (l := before ++ after)
    rw [h1] at hsplit
    exact append_cancel_left hsplit
  rw [h1, h2]

/-- Insertion into an ordered map: it fails if an item with the same start is there. -/
def emplace (b : β) (l : List β) : Option (List β) :=
  if l.any fun c => lo c = lo b then none else some (place b l)

theorem emplace_of_apart (hp : Proper l) (hb : lo b < hi b)
    (hapart : ∀ c ∈ l, hi b ≤ lo c ∨ hi c ≤ lo b) : emplace b l = some (place b l) := by
  refine if_neg ?_
  simp only [List.any_eq_true, decide_eq_true_eq, not_exists, not_and]
  intro c hc heq
  have hpc := hp c hc
  rcases hapart c hc with h' | h' <;> omega

theorem view_place (h : Ordered l) (hp : Proper l) (hb : lo b < hi b)
    (hapart : ∀ c ∈ l, hi b ≤ lo c ∨ hi c ≤ lo b) (x : ℕ) :
    view attr (place b l) x = if Covers b x then some (attr b x) else view attr l x := by
  have hplace := (h.place hp hb hapart).apart
  by_cases hx : Covers b x
  · rw [if_pos hx]
    exact hplace.view_of_mem (mem_place.mpr (.inl rfl)) hx
  · rw [if_neg hx]
    refine hplace.view_ext h.apart fun a => ?_
    constructor
    · rintro ⟨c, hc, hcov, rfl⟩
      rcases mem_place.mp hc with rfl | hc
      · exact absurd hcov hx
      · exact ⟨c, hc, hcov, rfl⟩
    · rintro ⟨c, hc, hcov, rfl⟩
      exact ⟨c, mem_place.mpr (.inr hc), hcov, rfl⟩

/-- Erasing the item with a given start from an ordered map. -/
def eraseAt (k : ℕ) (l : List β) : List β := l.filter fun c => lo c ≠ k

@[simp] theorem mem_eraseAt {k : ℕ} : c ∈ eraseAt k l ↔ c ∈ l ∧ lo c ≠ k := by
  unfold eraseAt
  rw [mem_filter, decide_eq_true_eq]

theorem Ordered.eraseAt (h : Ordered l) (k : ℕ) : Ordered (eraseAt k l) :=
  h.sublist filter_sublist

theorem Proper.eraseAt (h : Proper l) (k : ℕ) : Proper (eraseAt k l) :=
  fun c hc => h c (mem_eraseAt.mp hc).1

section

variable (h : Ordered l) (hp : Proper l) (hb : b ∈ l)

include h hp hb

theorem Ordered.eq_of_lo_eq (hc : c ∈ l) (heq : lo c = lo b) : c = b := by
  have hpb := hp b hb
  have hpc := hp c hc
  exact h.apart.eq_of_covers hc hb (x := lo b) ⟨heq.le, by omega⟩ ⟨le_refl _, hpb⟩

theorem Ordered.clear_eraseAt :
    ∀ c ∈ MagnusPS5.Lib.eraseAt (lo b) l, hi b ≤ lo c ∨ hi c ≤ lo b := by
  intro c hc
  obtain ⟨hc, hne⟩ := mem_eraseAt.mp hc
  have hpb := hp b hb
  have hpc := hp c hc
  by_contra hmeet
  have hcb := h.apart.eq_of_covers hc hb (x := max (lo b) (lo c))
    ⟨by omega, by omega⟩ ⟨by omega, by omega⟩
  exact hne (congrArg lo hcb)

theorem Ordered.view_eraseAt (x : ℕ) : view attr (MagnusPS5.Lib.eraseAt (lo b) l) x =
      if Covers b x then none else view attr l x := by
  by_cases hx : Covers b x
  · rw [if_pos hx, view_eq_none_iff]
    rintro ⟨c, hc, hcov⟩
    obtain ⟨hc, hne⟩ := mem_eraseAt.mp hc
    exact hne (congrArg lo (h.apart.eq_of_covers hc hb hcov hx))
  · rw [if_neg hx]
    refine (h.eraseAt _).apart.view_ext h.apart fun a => ?_
    constructor
    · rintro ⟨c, hc, hcov, rfl⟩
      exact ⟨c, (mem_eraseAt.mp hc).1, hcov, rfl⟩
    · rintro ⟨c, hc, hcov, rfl⟩
      refine ⟨c, mem_eraseAt.mpr ⟨hc, fun heq => ?_⟩, hcov, rfl⟩
      rw [h.eq_of_lo_eq hp hb hc heq] at hcov
      exact hx hcov

end

/-! ## Carving an interval out of one item -/

/-- Insertion of an item unless it is empty. -/
def emplacePart (b : β) (l : List β) : Option (List β) :=
  if lo b < hi b then emplace b l else some l

theorem emplacePart_spec (attr : β → ℕ → α) (b : β) (h : Ordered l) (hp : Proper l)
    (hapart : ∀ c ∈ l, hi b ≤ lo c ∨ hi c ≤ lo b) :
    ∃ l', emplacePart b l = some l' ∧ Ordered l' ∧ Proper l' ∧
      (∀ c, c ∈ l' ↔ (c = b ∧ lo b < hi b) ∨ c ∈ l) ∧
      ∀ x, view attr l' x = if Covers b x then some (attr b x) else view attr l x := by
  unfold emplacePart
  by_cases hb : lo b < hi b
  · rw [if_pos hb, emplace_of_apart hp hb hapart]
    refine ⟨_, rfl, h.place hp hb hapart, proper_place hb hp, fun c => ?_,
      view_place h hp hb hapart⟩
    rw [mem_place, and_iff_left hb]
  · rw [if_neg hb]
    refine ⟨l, rfl, h, hp, fun c => ?_, fun x => ?_⟩
    · rw [or_iff_right fun hc => hb hc.2]
    · rw [if_neg fun hx : Covers b x => hb (lt_of_le_of_lt hx.1 hx.2)]

/-- An item gives way to what it leaves on the left and on the right of an interval
inside it. -/
def carve (b left right : β) (l : List β) : Option (List β) :=
  (emplacePart left (eraseAt (lo b) l)).bind (emplacePart right)

/-- **Carving** succeeds, silences exactly the interval, and changes no other item. -/
theorem carve_spec (attr : β → ℕ → α) (h : Ordered l) (hp : Proper l)
    (left right : β) (hb : b ∈ l) (hs : lo b ≤ s) (hse : s < e) (he : e ≤ hi b)
    (hl : lo left = lo b ∧ hi left = s) (hr : lo right = e ∧ hi right = hi b)
    (hattrl : ∀ x, Covers left x → attr left x = attr b x)
    (hattrr : ∀ x, Covers right x → attr right x = attr b x) :
    ∃ l', carve b left right l = some l' ∧ Ordered l' ∧ Proper l' ∧
      (∀ c, c ∈ l' ↔
        (c = left ∧ lo b < s) ∨ (c = right ∧ e < hi b) ∨ (c ∈ l ∧ lo c ≠ lo b)) ∧
      ∀ x, view attr l' x = if s ≤ x ∧ x < e then none else view attr l x := by
  have hclear := h.clear_eraseAt hp hb
  obtain ⟨l1, h1, ho1, hp1, hm1, hv1⟩ := emplacePart_spec attr left
    (h.eraseAt (lo b)) (hp.eraseAt (lo b)) fun c hc => by
      rcases hclear c hc with h' | h' <;> omega
  obtain ⟨l2, h2, ho2, hp2, hm2, hv2⟩ := emplacePart_spec attr right
    ho1 hp1 fun c hc => by
      rcases (hm1 c).mp hc with ⟨rfl, -⟩ | hc
      · omega
      · rcases hclear c hc with h' | h' <;> omega
  refine ⟨l2, ?_, ho2, hp2, fun c => ?_, fun x => ?_⟩
  · unfold carve
    rw [h1]
    exact h2
  · rw [hm2 c, hm1 c, mem_eraseAt, hl.1, hl.2, hr.1, hr.2]
    tauto
  · have hcovb : Covers b x ↔ lo b ≤ x ∧ x < hi b := .rfl
    have hcovl : Covers left x ↔ lo b ≤ x ∧ x < s := by
      unfold Covers
      rw [hl.1, hl.2]
    have hcovr : Covers right x ↔ e ≤ x ∧ x < hi b := by
      unfold Covers
      rw [hr.1, hr.2]
    rw [hv2 x, hv1 x, h.view_eraseAt hp hb x]
    by_cases hx : Covers b x
    · have hbx : view attr l x = some (attr b x) := h.apart.view_of_mem hb hx
      have hx' := hcovb.mp hx
      by_cases hlx : Covers left x
      · have hlx' := hcovl.mp hlx
        rw [if_neg (c := Covers right x) (fun hrx => by have := hcovr.mp hrx; omega),
          if_pos hlx, if_neg (by omega), hbx, hattrl x hlx]
      · by_cases hrx : Covers right x
        · have hrx' := hcovr.mp hrx
          rw [if_pos hrx, if_neg (by omega), hbx, hattrr x hrx]
        · have hin : s ≤ x ∧ x < e := by
            by_contra hout
            by_cases hlow : x < s
            · exact hlx (hcovl.mpr ⟨hx'.1, hlow⟩)
            · exact hrx (hcovr.mpr ⟨by omega, hx'.2⟩)
          rw [if_neg hrx, if_neg hlx, if_pos hx, if_pos hin]
    · rw [if_neg fun hrx => hx (by have := hcovr.mp hrx; exact hcovb.mpr ⟨by omega, this.2⟩),
        if_neg fun hlx => hx (by have := hcovl.mp hlx; exact hcovb.mpr ⟨this.1, by omega⟩),
        if_neg hx, if_neg fun hin => hx (hcovb.mpr ⟨by omega, by omega⟩)]

end Keyed

end MagnusPS5.Lib
