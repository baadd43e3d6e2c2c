/-
Walking over an interval from one item to the next.

Many loops that ask whether a table covers an interval have one shape: find the
item that holds the current address, move on to the end of that item, stop when
the end of the interval is reached or no item is found. `walk` is that loop,
returning the parts it went through. `walk_isSome_iff` says when it gets to the
end, `walk_tiles` what the parts are.
-/
import MagnusPS5.Lib.Spans

namespace MagnusPS5.Lib

open Spanned (lo hi)
open Nat Option List

variable {β : Type*} [Spanned β]

/-- From `current` to `e`, item by item. `find` is the lookup of the table; the
fuel bounds the number of items passed. -/
def walk (find : ℕ → Option β) : ℕ → ℕ → ℕ → Option (List (β × ℕ × ℕ))
  | 0, current, e => if current < e then none else some []
  | fuel + 1, current, e =>
    if current < e then
      match find current with
      | none => none
      | some b =>
        (walk find fuel (min e (hi b)) e).map fun parts =>
          (b, current, min e (hi b)) :: parts
    else some []

/-- The parts lie end to end from `s` to `e`, each inside its item and reaching to the
end of the item or of the interval. -/
def Tiles (l : List β) : ℕ → ℕ → List (β × ℕ × ℕ) → Prop
  | s, e, [] => e ≤ s
  | s, e, (b, f, t) :: parts =>
    b ∈ l ∧ f = s ∧ lo b ≤ f ∧ f < t ∧ t = min e (hi b) ∧ Tiles l t e parts

/-- A lookup that only ever answers with an item of the list at the address. -/
def Sound (l : List β) (find : ℕ → Option β) : Prop :=
  ∀ x b, find x = some b → b ∈ l ∧ Covers b x

theorem sound_at? (l : List β) : Sound l (at? l) :=
  fun _ _ h => ⟨mem_of_at?_eq_some h, covers_of_at?_eq_some h⟩

variable {l : List β} {find : ℕ → Option β} {fuel s e : ℕ} {parts : List (β × ℕ × ℕ)}

theorem walk_tiles (hf : Sound l find)
    (h : walk find fuel s e = some parts) : Tiles l s e parts := by
  induction fuel generalizing s parts with
  | zero =>
    unfold walk at h
    split at h
    · nomatch h
    · obtain rfl : [] = parts := by simpa using h
      exact Nat.le_of_not_lt ‹_›
  | succ fuel ih =>
    unfold walk at h
    by_cases hse : s < e
    · rw [if_pos hse] at h
      cases hb : find s with
      | none => simp [hb] at h
      | some b =>
        simp only [hb, map_eq_some_iff] at h
        obtain ⟨rest, hrest, rfl⟩ := h
        obtain ⟨hmem, hlo, hhi⟩ := hf s b hb
        exact ⟨hmem, rfl, hlo, by omega, rfl, ih hrest⟩
    · rw [if_neg hse] at h
      obtain rfl : [] = parts := by simpa using h
      exact Nat.le_of_not_lt hse

theorem Tiles.exists_part (h : Tiles l s e parts) {x : ℕ}
    (hs : s ≤ x) (he : x < e) : ∃ b f t, (b, f, t) ∈ parts ∧ b ∈ l ∧ f ≤ x ∧ x < t ∧
      lo b ≤ f ∧ t ≤ hi b := by
  induction parts generalizing s with
  | nil => exact absurd he (by have : e ≤ s := h; omega)
  | cons p parts ih =>
    obtain ⟨b, f, t⟩ := p
    obtain ⟨hb, rfl, hlo, -, ht, hrest⟩ := h
    by_cases hx : x < t
    · exact ⟨b, f, t, .head _, hb, hs, hx, hlo, by omega⟩
    · obtain ⟨b', f', t', hmem, h'⟩ := ih hrest (by omega)
      exact ⟨b', f', t', .tail _ hmem, h'⟩

theorem Tiles.part (h : Tiles l s e parts) {b : β} {f t : ℕ} (hp : (b, f, t) ∈ parts) :
    b ∈ l ∧ s ≤ f ∧ f < t ∧ t ≤ e ∧ lo b ≤ f ∧ t ≤ hi b := by
  induction parts generalizing s with
  | nil => nomatch hp
  | cons p parts ih =>
    obtain ⟨b', f', t'⟩ := p
    obtain ⟨hb, rfl, hlo, hlt, ht, hrest⟩ := h
    rcases mem_cons.mp hp with heq | hp
    · obtain ⟨rfl, rfl, rfl⟩ : b = b' ∧ f = f' ∧ t = t' := by simpa using heq
      exact ⟨hb, le_refl _, hlt, by omega, hlo, by omega⟩
    · obtain ⟨h1, h2, h3⟩ := ih hrest hp
      exact ⟨h1, by omega, h3⟩

theorem Tiles.of_mem {l' : List β} (h : Tiles l s e parts)
    (hmem : ∀ b f t, (b, f, t) ∈ parts → b ∈ l') : Tiles l' s e parts := by
  induction parts generalizing s with
  | nil => exact h
  | cons p parts ih =>
    obtain ⟨b, f, t⟩ := p
    obtain ⟨-, h2, h3, h4, h5, hrest⟩ := h
    exact ⟨hmem b f t mem_cons_self, h2, h3, h4, h5,
      ih hrest fun b' f' t' hp => hmem b' f' t' (.tail _ hp)⟩

theorem walk_length (h : walk find fuel s e = some parts) : parts.length ≤ fuel := by
  induction fuel generalizing s parts with
  | zero =>
    unfold walk at h
    split at h
    · nomatch h
    · obtain rfl : [] = parts := by simpa using h
      exact le_refl _
  | succ fuel ih =>
    unfold walk at h
    by_cases hse : s < e
    · rw [if_pos hse] at h
      cases hb : find s with
      | none => simp [hb] at h
      | some b =>
        simp only [hb, map_eq_some_iff] at h
        obtain ⟨rest, hrest, rfl⟩ := h
        exact succ_le_succ (ih hrest)
    · rw [if_neg hse] at h
      obtain rfl : [] = parts := by simpa using h
      exact zero_le _

/-- The items that end after an address: what is left of a walk. -/
def ahead (l : List β) (x : ℕ) : ℕ := (l.filter fun b => decide (x < hi b)).length

theorem ahead_le_length (l : List β) (x : ℕ) : ahead l x ≤ l.length :=
  length_filter_le _ _

theorem ahead_lt {b : β} {t : ℕ} (hb : b ∈ l) (hs : s < hi b) (ht : hi b ≤ t) :
    ahead l t < ahead l s := by
  induction l with
  | nil => nomatch hb
  | cons c l ih =>
    have hmono : ahead l t ≤ ahead l s := by
      refine (monotone_filter_right l ?_).length_le
      intro d hd
      simp only [decide_eq_true_eq] at hd ⊢
      omega
    unfold ahead at ih hmono ⊢
    rcases mem_cons.mp hb with rfl | hbl
    · rw [filter_cons_of_neg (by simpa using ht), filter_cons_of_pos (by simpa using hs),
        length_cons]
      omega
    · have hlt := ih hbl
      by_cases hct : t < hi c
      · rw [filter_cons_of_pos (by simpa using hct),
          filter_cons_of_pos (by simp only [decide_eq_true_eq]; omega),
          length_cons, length_cons]
        omega
      · rw [filter_cons_of_neg (by simpa using hct)]
        by_cases hcs : s < hi c
        · rw [filter_cons_of_pos (by simpa using hcs), length_cons]
          omega
        · rw [filter_cons_of_neg (by simpa using hcs)]
          exact hlt

/-- With one unit of fuel for each item ahead, a walk gets to the end if every
address on the way is found. -/
theorem walk_isSome (hf : Sound l find) (hfuel : ahead l s ≤ fuel)
    (h : ∀ x, s ≤ x → x < e → (find x).isSome) : (walk find fuel s e).isSome := by
  induction fuel generalizing s with
  | zero =>
    unfold walk
    by_cases hse : s < e
    · obtain ⟨b, hb⟩ := isSome_iff_exists.mp (h s le_rfl hse)
      obtain ⟨hmem, -, hhi⟩ := hf s b hb
      have := ahead_lt hmem hhi (le_refl (hi b))
      omega
    · rw [if_neg hse]
      rfl
  | succ fuel ih =>
    unfold walk
    by_cases hse : s < e
    · obtain ⟨b, hb⟩ := isSome_iff_exists.mp (h s le_rfl hse)
      obtain ⟨hmem, -, hhi⟩ := hf s b hb
      rw [if_pos hse, hb]
      simp only [isSome_map]
      by_cases hend : e ≤ hi b
      · -- the last part: the walk stops at once, whatever the fuel
        rw [min_eq_left hend]
        cases fuel <;> simp [walk]
      · have hlt := ahead_lt hmem hhi (t := min e (hi b)) (by omega)
        exact ih (by omega) fun x hx => h x (by omega)
    · rw [if_neg hse]
      rfl

/-- **A walk gets to the end exactly when every address on the way is found.** -/
theorem walk_isSome_iff (hf : Sound l find)
    (hstable : ∀ b x y, find x = some b → x ≤ y → y < hi b → (find y).isSome) :
    (walk find l.length s e).isSome ↔ ∀ x, s ≤ x → x < e → (find x).isSome := by
  constructor
  · intro h x hs he
    suffices key : ∀ fuel s, (walk find fuel s e).isSome → s ≤ x → (find x).isSome by
      exact key _ _ h hs
    intro fuel
    induction fuel with
    | zero =>
      intro s h hs
      unfold walk at h
      rw [if_pos (by omega)] at h
      nomatch h
    | succ fuel ih =>
      intro s h hs
      unfold walk at h
      rw [if_pos (by omega)] at h
      cases hb : find s with
      | none => simp [hb] at h
      | some b =>
        simp only [hb, isSome_map] at h
        by_cases hx : x < hi b
        · exact hstable b s x hb hs hx
        · exact ih _ h (by omega)
  · exact walk_isSome hf (ahead_le_length l s)

end MagnusPS5.Lib
