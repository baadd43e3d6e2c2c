/-
Lists of items that each occupy a half-open interval of addresses.

A table of address ranges is, read byte by byte, a partial function from
addresses to attributes. This file fixes that reading (`at?`, `view`) and the
three shapes a table can have (`Ordered`, `Apart`, `Proper`), and says what the
reading becomes when items are rewritten one by one, replaced or taken out.

Nothing here knows what the items are.
-/
import Mathlib.Data.List.Chain
import Mathlib.Data.List.Sort
import Mathlib.Data.List.TakeWhile

namespace MagnusPS5.Lib

open List Option

/-- An item that occupies the half-open interval `[lo, hi)`. -/
class Spanned (β : Type*) where
  lo : β → ℕ
  hi : β → ℕ

open Spanned (lo hi)

/-! ## Items and the addresses they cover -/

section Spanned

variable {α β : Type*} [Spanned β]

/-- The address `x` lies in the item's interval. -/
def Covers (b : β) (x : ℕ) : Prop := lo b ≤ x ∧ x < hi b

instance (b : β) : DecidablePred (Covers b) :=
  fun x => inferInstanceAs (Decidable (lo b ≤ x ∧ x < hi b))

variable (l : List β)

/-- Every item ends at or before the start of each later one. -/
def Ordered : Prop := l.Pairwise fun a b => hi a ≤ lo b

/-- No two items share an address, in whatever order they are listed. -/
def Apart : Prop := l.Pairwise fun a b => hi a ≤ lo b ∨ hi b ≤ lo a

/-- No item is empty. -/
def Proper : Prop := ∀ b ∈ l, lo b < hi b

/-- Some item of the list covers the address. -/
def Occupied (x : ℕ) : Prop := ∃ b ∈ l, Covers b x

instance (l : List β) : DecidablePred (Occupied l) :=
  fun x => inferInstanceAs (Decidable (∃ b ∈ l, Covers b x))

/-- The item that covers an address. -/
def at? (x : ℕ) : Option β := l.find? fun b => decide (Covers b x)

/-- The attribute of an address: what the item that covers it says of it. -/
def view (attr : β → ℕ → α) (l : List β) (x : ℕ) : Option α :=
  (at? l x).map fun b => attr b x

variable {l l1 l2 before after : List β} {b : β} {x : ℕ}

theorem Ordered.apart (h : Ordered l) : Apart l :=
  h.imp fun hab => .inl hab

theorem ordered_cons : Ordered (b :: l) ↔ (∀ c ∈ l, hi b ≤ lo c) ∧ Ordered l :=
  pairwise_cons

theorem ordered_append :
    Ordered (l1 ++ l2) ↔ Ordered l1 ∧ Ordered l2 ∧ ∀ a ∈ l1, ∀ b ∈ l2, hi a ≤ lo b :=
  pairwise_append

theorem apart_cons : Apart (b :: l) ↔ (∀ c ∈ l, hi b ≤ lo c ∨ hi c ≤ lo b) ∧ Apart l :=
  pairwise_cons

theorem apart_append : Apart (l1 ++ l2) ↔
      Apart l1 ∧ Apart l2 ∧ ∀ a ∈ l1, ∀ b ∈ l2, hi a ≤ lo b ∨ hi b ≤ lo a :=
  pairwise_append

theorem proper_cons : Proper (b :: l) ↔ lo b < hi b ∧ Proper l :=
  forall_mem_cons

theorem proper_append : Proper (l1 ++ l2) ↔ Proper l1 ∧ Proper l2 :=
  forall_mem_append

@[simp] theorem occupied_nil (x : ℕ) : ¬ Occupied ([] : List β) x := by
  rintro ⟨b, hb, -⟩
  nomatch hb

theorem occupied_cons : Occupied (b :: l) x ↔ Covers b x ∨ Occupied l x := by
  simp only [Occupied, exists_mem_cons_iff]

theorem occupied_append : Occupied (l1 ++ l2) x ↔ Occupied l1 x ∨ Occupied l2 x := by
  simp only [Occupied, mem_append, or_and_right, exists_or]

/-! ## Reading a list one address at a time -/

theorem at?_cons (b : β) (l : List β) (x : ℕ) :
    at? (b :: l) x = if Covers b x then some b else at? l x := by
  by_cases hb : Covers b x
  · rw [if_pos hb, at?, find?_cons_of_pos (by simpa using hb)]
  · rw [if_neg hb, at?, find?_cons_of_neg (by simpa using hb), at?]

theorem at?_append (l1 l2 : List β) (x : ℕ) : at? (l1 ++ l2) x = (at? l1 x).or (at? l2 x) :=
  find?_append

theorem at?_eq_none_iff : at? l x = none ↔ ¬ Occupied l x := by
  simp only [at?, find?_eq_none, decide_eq_true_eq, Occupied, not_exists, not_and]

theorem at?_isSome_iff : (at? l x).isSome ↔ Occupied l x := by
  have hnone : at? l x = none ↔ ¬ Occupied l x := at?_eq_none_iff
  rw [← not_iff_not, ← hnone, not_isSome_iff_eq_none]

theorem mem_of_at?_eq_some (h : at? l x = some b) : b ∈ l :=
  mem_of_find?_eq_some h

theorem covers_of_at?_eq_some (h : at? l x = some b) : Covers b x := by
  simpa using find?_some h

theorem Apart.eq_of_covers (h : Apart l) {a : β} (ha : a ∈ l)
    (hb : b ∈ l) (hax : Covers a x) (hbx : Covers b x) : a = b := by
  induction l with
  | nil => nomatch ha
  | cons c l ih =>
    obtain ⟨hc, hl⟩ := apart_cons.mp h
    obtain ⟨ha1, ha2⟩ := hax
    obtain ⟨hb1, hb2⟩ := hbx
    rcases mem_cons.mp ha with hac | hal <;> rcases mem_cons.mp hb with hbc | hbl
    · rw [hac, hbc]
    · subst hac
      rcases hc b hbl with h' | h' <;> omega
    · subst hbc
      rcases hc a hal with h' | h' <;> omega
    · exact ih hl hal hbl

theorem Apart.at?_eq_some_iff (h : Apart l) : at? l x = some b ↔ b ∈ l ∧ Covers b x := by
  constructor
  · intro hx
    exact ⟨mem_of_at?_eq_some hx, covers_of_at?_eq_some hx⟩
  · rintro ⟨hb, hbx⟩
    cases hx : at? l x with
    | none => exact absurd ⟨b, hb, hbx⟩ (at?_eq_none_iff.mp hx)
    | some c =>
      rw [h.eq_of_covers (mem_of_at?_eq_some hx) hb (covers_of_at?_eq_some hx) hbx]

variable {attr : β → ℕ → α}

@[simp] theorem view_nil (x : ℕ) : view attr ([] : List β) x = none := rfl

theorem view_cons (b : β) (l : List β) (x : ℕ) :
    view attr (b :: l) x = if Covers b x then some (attr b x) else view attr l x := by
  rw [view, at?_cons]
  split <;> rfl

theorem view_singleton (b : β) (x : ℕ) :
    view attr [b] x = if Covers b x then some (attr b x) else none := by
  rw [view_cons, view_nil]

theorem view_append (l1 l2 : List β) (x : ℕ) :
    view attr (l1 ++ l2) x = (view attr l1 x).or (view attr l2 x) := by
  rw [view, at?_append, view, view]
  cases at? l1 x <;> rfl

theorem view_eq_none_iff : view attr l x = none ↔ ¬ Occupied l x := by
  rw [view, map_eq_none_iff, at?_eq_none_iff]

theorem view_isSome_iff : (view attr l x).isSome ↔ Occupied l x := by
  rw [view, isSome_map, at?_isSome_iff]

theorem view_ne_none_iff : view attr l x ≠ none ↔ Occupied l x := by
  rw [ne_eq, view_eq_none_iff, not_not]

theorem Apart.view_eq_some_iff (h : Apart l) {a : α} :
    view attr l x = some a ↔ ∃ b ∈ l, Covers b x ∧ attr b x = a := by
  simp only [view, map_eq_some_iff, h.at?_eq_some_iff, and_assoc]

theorem Apart.view_of_mem (h : Apart l) (hb : b ∈ l)
    (hx : Covers b x) : view attr l x = some (attr b x) :=
  h.view_eq_some_iff.mpr ⟨b, hb, hx, rfl⟩

/-- The reading of a list without overlaps does not depend on the order of its
items, so it is settled by which item says what. -/
theorem Apart.view_ext {l' : List β} (h : Apart l) (h' : Apart l')
    (hiff : ∀ a, (∃ b ∈ l, Covers b x ∧ attr b x = a) ↔
      ∃ b ∈ l', Covers b x ∧ attr b x = a) : view attr l x = view attr l' x := by
  apply Option.ext
  intro a
  rw [h.view_eq_some_iff, h'.view_eq_some_iff, hiff]

/-! ## Rewriting a list item by item -/

/-- If every item is replaced by pieces that say, of each address, what `g` makes
of the item's own attribute, the whole list is edited pointwise by `g`. -/
theorem Apart.view_flatMap (h : Apart l) (f : β → List β) (g : ℕ → α → Option α) (hf : ∀ b ∈ l, ∀ x,
      view attr (f b) x = if Covers b x then g x (attr b x) else none) (x : ℕ) :
    view attr (l.flatMap f) x = (view attr l x).bind (g x) := by
  induction l with
  | nil => rfl
  | cons b l ih =>
    obtain ⟨hb, hl⟩ := apart_cons.mp h
    have ihl := ih hl fun c hc => hf c (.tail _ hc)
    rw [flatMap_cons, view_append, hf b mem_cons_self x, view_cons, ihl]
    by_cases hx : Covers b x
    · -- no later item covers `x`, so the tail of the list is silent about it
      have htail : view attr l x = none := by
        rw [view_eq_none_iff]
        rintro ⟨c, hc, hcx⟩
        obtain ⟨hx1, hx2⟩ := hx
        obtain ⟨hc1, hc2⟩ := hcx
        rcases hb c hc with h' | h' <;> omega
      rw [if_pos hx, if_pos hx, htail]
      simp
    · rw [if_neg hx, if_neg hx]
      rfl

/-- Replacing each item of an ordered list by ordered pieces inside it keeps the
list ordered. -/
theorem Ordered.flatMap (h : Ordered l) (f : β → List β)
    (hin : ∀ b ∈ l, ∀ c ∈ f b, lo b ≤ lo c ∧ hi c ≤ hi b)
    (hf : ∀ b ∈ l, Ordered (f b)) : Ordered (l.flatMap f) := by
  refine pairwise_flatMap.mpr ⟨hf, .imp_of_mem ?_ h⟩
  intro a b ha hb hab c hc d hd
  exact ((hin a ha c hc).2.trans hab).trans (hin b hb d hd).1

/-! ## Replacing one item -/

/-- Replacing one item of a list without overlaps by a list that says, of the
item's addresses, what `g` makes of its attribute edits those addresses alone. -/
theorem Apart.view_splice {mid : List β} {g : ℕ → α → Option α} (h : Apart (before ++ b :: after))
    (hmid : view attr mid x = if Covers b x then g x (attr b x) else none) :
    view attr (before ++ mid ++ after) x =
      if Covers b x then (view attr (before ++ b :: after) x).bind (g x)
      else view attr (before ++ b :: after) x := by
  obtain ⟨-, hb, hcross⟩ := apart_append.mp h
  obtain ⟨hafter, -⟩ := apart_cons.mp hb
  rw [view_append, view_append, view_append, view_cons, hmid]
  by_cases hx : Covers b x
  · -- neither side can say anything of an address of `b`
    have hleft : view attr before x = none := by
      rw [view_eq_none_iff]
      rintro ⟨c, hc, hc1, hc2⟩
      obtain ⟨hx1, hx2⟩ := hx
      rcases hcross c hc b mem_cons_self with h' | h' <;> omega
    have hright : view attr after x = none := by
      rw [view_eq_none_iff]
      rintro ⟨c, hc, hc1, hc2⟩
      obtain ⟨hx1, hx2⟩ := hx
      rcases hafter c hc with h' | h' <;> omega
    rw [if_pos hx, if_pos hx, if_pos hx, hleft, hright, none_or, none_or, or_none]
    rfl
  · rw [if_neg hx, if_neg hx, if_neg hx, or_none]

theorem Apart.view_erase (h : Apart (before ++ b :: after)) (x : ℕ) :
    view attr (before ++ after) x =
      if Covers b x then none else view attr (before ++ b :: after) x := by
  have hnil : view attr ([] : List β) x = if Covers b x then none else none := by
    rw [view_nil, ite_self]
  have hsplice := h.view_splice (g := fun _ _ => none) hnil
  rw [append_nil] at hsplice
  rw [hsplice]
  by_cases hx : Covers b x
  · rw [if_pos hx, if_pos hx, bind_fun_none]
  · rw [if_neg hx, if_neg hx]

/-- Replacing one item of an ordered list by ordered pieces inside it keeps the list
ordered. -/
theorem Ordered.splice {mid : List β} (h : Ordered (before ++ b :: after))
    (hmid : Ordered mid) (hin : ∀ c ∈ mid, lo b ≤ lo c ∧ hi c ≤ hi b) :
    Ordered (before ++ mid ++ after) := by
  obtain ⟨h1, h2, h3⟩ := ordered_append.mp h
  obtain ⟨h4, h5⟩ := ordered_cons.mp h2
  refine ordered_append.mpr ⟨ordered_append.mpr ⟨h1, hmid, ?_⟩, h5, ?_⟩
  · intro a ha c hc
    exact (h3 a ha b mem_cons_self).trans (hin c hc).1
  · intro a ha d hd
    rcases mem_append.mp ha with ha | ha
    · exact h3 a ha d (.tail _ hd)
    · exact (hin a ha).2.trans (h4 d hd)

theorem Apart.occupied_splice (h : Apart (before ++ b :: after)) (mid : List β) (x : ℕ) :
    Occupied (before ++ mid ++ after) x ↔
      (Occupied (before ++ b :: after) x ∧ ¬ Covers b x) ∨ Occupied mid x := by
  obtain ⟨-, h2, h3⟩ := apart_append.mp h
  obtain ⟨h4, -⟩ := apart_cons.mp h2
  have hbefore : Occupied before x → ¬ Covers b x := by
    rintro ⟨a, ha, ha1, ha2⟩ ⟨hb1, hb2⟩
    rcases h3 a ha b mem_cons_self with h' | h' <;> omega
  have hafter : Occupied after x → ¬ Covers b x := by
    rintro ⟨a, ha, ha1, ha2⟩ ⟨hb1, hb2⟩
    rcases h4 a ha with h' | h' <;> omega
  rw [occupied_append, occupied_append, occupied_append, occupied_cons]
  tauto

end Spanned

end MagnusPS5.Lib
