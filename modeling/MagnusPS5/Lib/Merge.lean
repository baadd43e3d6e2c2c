/-
Merging a table: neighbours that touch and agree become one item, and the table
reads as before.
-/
import MagnusPS5.Lib.Spans

namespace MagnusPS5.Lib

open Spanned (lo hi)
open List

/-! ## Merging neighbours that touch and agree -/

section Merge

variable {α β : Type*} [Spanned β]

/-- What merging needs of its test and its join, for items that satisfy `ok`. Two
items that fit touch, and their join says of each address what they said and
fits its neighbours as they did. -/
structure LawfulJoin (attr : β → ℕ → α) (ok : β → Prop) (fits : β → β → Prop)
    (join : β → β → β) : Prop where
  touch : ∀ {a b}, ok a → ok b → fits a b → hi a = lo b
  ok_join : ∀ {a b}, ok a → ok b → fits a b → ok (join a b)
  lo_join : ∀ {a b}, ok a → ok b → fits a b → lo (join a b) = lo a
  hi_join : ∀ {a b}, ok a → ok b → fits a b → hi (join a b) = hi b
  attr_left : ∀ {a b} x, ok a → ok b → fits a b → Covers a x → attr (join a b) x = attr a x
  attr_right : ∀ {a b} x, ok a → ok b → fits a b → Covers b x → attr (join a b) x = attr b x
  fits_left : ∀ {a b c}, ok a → ok b → fits a b → (fits c (join a b) ↔ fits c a)
  fits_right : ∀ {a b c}, ok a → ok b → fits a b → (fits (join a b) c ↔ fits b c)

variable (fits : β → β → Prop) [DecidableRel fits] (join : β → β → β)

/-- Merge a pending item with the list that follows it, all the way to the end. -/
def mergeFrom (last : β) : List β → List β
  | [] => [last]
  | b :: rest =>
    if fits last b then mergeFrom (join last b) rest else last :: mergeFrom b rest

/-- Merge a pending item with the list that follows it, up to the first item that
does not fit. -/
def mergeWhile (cur : β) : List β → List β
  | [] => [cur]
  | b :: rest => if fits cur b then mergeWhile (join cur b) rest else cur :: b :: rest

/-- Merge a whole list. -/
def mergeAll : List β → List β
  | [] => []
  | b :: rest => mergeFrom fits join b rest

/-- No two neighbours fit. -/
def Unmergeable (l : List β) : Prop := l.IsChain fun a b => ¬ fits a b

variable {fits join} {attr : β → ℕ → α} {ok : β → Prop}

omit [DecidableRel fits] in
theorem LawfulJoin.ok_cons (L : LawfulJoin attr ok fits join) {a b : β} {rest : List β}
    (hok : ∀ c ∈ a :: b :: rest, ok c) (hfit : fits a b) : ∀ c ∈ join a b :: rest, ok c := by
  simp only [forall_mem_cons] at hok ⊢
  exact ⟨L.ok_join hok.1 hok.2.1 hfit, hok.2.2⟩

section

variable (L : LawfulJoin attr ok fits join) (last : β) (rest : List β)
  (hok : ∀ b ∈ last :: rest, ok b)

include L last rest hok

/-- The first item of a merge starts where the pending item starts and fits what
precedes it as the pending item did. -/
theorem mergeFrom_head : ∃ h t, mergeFrom fits join last rest = h :: t ∧ lo h = lo last ∧
      ∀ c, fits c h ↔ fits c last := by
  induction rest generalizing last with
  | nil => exact ⟨last, [], rfl, rfl, fun _ => .rfl⟩
  | cons b rest ih =>
    have hl : ok last := hok last mem_cons_self
    have hb : ok b := hok b (by simp)
    unfold mergeFrom
    by_cases hfit : fits last b
    · rw [if_pos hfit]
      obtain ⟨h, t, heq, hlo, hfits⟩ := ih (join last b) (L.ok_cons hok hfit)
      refine ⟨h, t, heq, hlo.trans (L.lo_join hl hb hfit), fun c => ?_⟩
      exact (hfits c).trans (L.fits_left hl hb hfit)
    · rw [if_neg hfit]
      exact ⟨last, _, rfl, rfl, fun _ => .rfl⟩

theorem unmergeable_mergeFrom : Unmergeable fits (mergeFrom fits join last rest) := by
  induction rest generalizing last with
  | nil => exact isChain_singleton _
  | cons b rest ih =>
    have hl : ok last := hok last mem_cons_self
    have hb : ok b := hok b (by simp)
    unfold mergeFrom
    by_cases hfit : fits last b
    · rw [if_pos hfit]
      exact ih _ (L.ok_cons hok hfit)
    · rw [if_neg hfit]
      have htail := ih b fun c hc => hok c (.tail _ hc)
      obtain ⟨h, t, heq, -, hfits⟩ := mergeFrom_head L b rest fun c hc => hok c (.tail _ hc)
      rw [heq] at htail ⊢
      exact isChain_cons_cons.mpr ⟨fun hc => hfit ((hfits last).mp hc), htail⟩

/-- A merge keeps the items valid, in order, and non-empty, and starts and ends
where the list did. -/
theorem mergeFrom_shape (ho : Ordered (last :: rest)) (hp : Proper (last :: rest)) :
    (∀ b ∈ mergeFrom fits join last rest, ok b) ∧
      Ordered (mergeFrom fits join last rest) ∧ Proper (mergeFrom fits join last rest) ∧
      ∀ b ∈ mergeFrom fits join last rest, lo last ≤ lo b := by
  induction rest generalizing last with
  | nil =>
    refine ⟨hok, ho, hp, ?_⟩
    intro b hb
    rw [mem_singleton.mp hb]
  | cons b rest ih =>
    have hl : ok last := hok last mem_cons_self
    have hb : ok b := hok b (by simp)
    obtain ⟨hlast, hrest⟩ := ordered_cons.mp ho
    obtain ⟨hb', hrest'⟩ := ordered_cons.mp hrest
    obtain ⟨hpl, hpr⟩ := proper_cons.mp hp
    obtain ⟨hpb, hpr'⟩ := proper_cons.mp hpr
    unfold mergeFrom
    by_cases hfit : fits last b
    · rw [if_pos hfit]
      have hlo := L.lo_join hl hb hfit
      have hhi := L.hi_join hl hb hfit
      have htouch := L.touch hl hb hfit
      have hj := ih (join last b)
        (L.ok_cons hok hfit)
        (ordered_cons.mpr ⟨fun c hc => hhi ▸ hb' c hc, hrest'⟩)
        (proper_cons.mpr ⟨by omega, hpr'⟩)
      rw [hlo] at hj
      exact hj
    · rw [if_neg hfit]
      obtain ⟨h1, h2, h3, h4⟩ := ih b (fun c hc => hok c (.tail _ hc)) hrest hpr
      have hlb : hi last ≤ lo b := hlast b mem_cons_self
      refine ⟨forall_mem_cons.mpr ⟨hl, h1⟩, ordered_cons.mpr ⟨?_, h2⟩,
        proper_cons.mpr ⟨hpl, h3⟩, forall_mem_cons.mpr ⟨le_refl _, ?_⟩⟩
      · intro c hc
        exact hlb.trans (h4 c hc)
      · intro c hc
        have := h4 c hc
        omega

theorem view_mergeFrom (hp : Proper (last :: rest)) (x : ℕ) :
    view attr (mergeFrom fits join last rest) x = view attr (last :: rest) x := by
  induction rest generalizing last with
  | nil => rfl
  | cons b rest ih =>
    have hl : ok last := hok last mem_cons_self
    have hb : ok b := hok b (by simp)
    obtain ⟨hpl, hpr⟩ := proper_cons.mp hp
    obtain ⟨hpb, hpr'⟩ := proper_cons.mp hpr
    unfold mergeFrom
    by_cases hfit : fits last b
    · rw [if_pos hfit]
      have hlo := L.lo_join hl hb hfit
      have hhi := L.hi_join hl hb hfit
      have htouch := L.touch hl hb hfit
      rw [ih (join last b)
        (L.ok_cons hok hfit)
        (proper_cons.mpr ⟨by omega, hpr'⟩)]
      simp only [view_cons]
      by_cases h1 : Covers last x
      · have hj : Covers (join last b) x := by
          obtain ⟨h1a, h1b⟩ := h1
          exact ⟨by omega, by omega⟩
        rw [if_pos hj, if_pos h1, L.attr_left x hl hb hfit h1]
      · rw [if_neg h1]
        by_cases h2 : Covers b x
        · have hj : Covers (join last b) x := by
            obtain ⟨h2a, h2b⟩ := h2
            exact ⟨by omega, by omega⟩
          rw [if_pos hj, if_pos h2, L.attr_right x hl hb hfit h2]
        · have hj : ¬ Covers (join last b) x := by
            rintro ⟨hja, hjb⟩
            by_cases hx : x < hi last
            · exact h1 ⟨by omega, hx⟩
            · exact h2 ⟨by omega, by omega⟩
          rw [if_neg hj, if_neg h2]
    · rw [if_neg hfit, view_cons, view_cons, ih b (fun c hc => hok c (.tail _ hc)) hpr]

end

omit [Spanned β] in
theorem mergeFrom_of_unmergeable (last : β) (rest : List β)
    (h : Unmergeable fits (last :: rest)) : mergeFrom fits join last rest = last :: rest := by
  induction rest generalizing last with
  | nil => rfl
  | cons b rest ih =>
    obtain ⟨hb, hrest⟩ := isChain_cons_cons.mp h
    unfold mergeFrom
    rw [if_neg hb, ih b hrest]

omit [Spanned β] in
/-- A merge that stops at the first misfit is a full merge when what follows is
merged already. -/
theorem mergeWhile_eq_mergeFrom (cur : β) (rest : List β) (h : Unmergeable fits rest) :
    mergeWhile fits join cur rest = mergeFrom fits join cur rest := by
  induction rest generalizing cur with
  | nil => rfl
  | cons b rest ih =>
    unfold mergeWhile mergeFrom
    by_cases hfit : fits cur b
    · rw [if_pos hfit, if_pos hfit, ih _ h.tail]
    · rw [if_neg hfit, if_neg hfit, mergeFrom_of_unmergeable b rest h]

omit [Spanned β] in
theorem mergeAll_append (front : List β) (a : β) (rest : List β)
    (h : Unmergeable fits (front ++ [a])) :
    mergeAll fits join (front ++ a :: rest) = front ++ mergeFrom fits join a rest := by
  induction front with
  | nil => rfl
  | cons b front ih =>
    have ih' := ih (.tail h)
    cases front with
    | nil =>
      obtain ⟨hb, -⟩ := isChain_cons_cons.mp h
      change mergeFrom fits join b (a :: rest) = b :: mergeFrom fits join a rest
      rw [mergeFrom, if_neg hb]
    | cons c front =>
      obtain ⟨hb, -⟩ := isChain_cons_cons.mp h
      change mergeFrom fits join b (c :: (front ++ a :: rest)) = _
      rw [mergeFrom, if_neg hb]
      exact congrArg (b :: ·) ih'

/-- **Merging a table.** It reads as before, keeps its shape, and no two of its
neighbours fit any more. -/
theorem mergeAll_spec (L : LawfulJoin attr ok fits join) {l : List β}
    (hok : ∀ b ∈ l, ok b) (ho : Ordered l) (hp : Proper l) :
    (∀ b ∈ mergeAll fits join l, ok b) ∧ Ordered (mergeAll fits join l) ∧
      Proper (mergeAll fits join l) ∧ Unmergeable fits (mergeAll fits join l) ∧
      ∀ x, view attr (mergeAll fits join l) x = view attr l x := by
  cases l with
  | nil => exact ⟨hok, ho, hp, isChain_nil, fun _ => rfl⟩
  | cons b rest =>
    obtain ⟨h1, h2, h3, -⟩ := mergeFrom_shape L b rest hok ho hp
    exact ⟨h1, h2, h3, unmergeable_mergeFrom L b rest hok, view_mergeFrom L b rest hok hp⟩

end Merge

end MagnusPS5.Lib
