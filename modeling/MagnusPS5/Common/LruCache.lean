/-
`Common::LeastRecentlyUsedCache` (`lruCache.h`): items in slots that are used again, in a doubly
linked list from the least recently used one on.

`Linked` says that slots stand in a row, `Row` that the list of the cache is one. `Detach` takes a
slot out of the row and `Attach` puts one at its end. `Holds` is what stands in the slots, and
`Reached` goes over the calls of a user who touches and frees only what lives.
-/
import Mathlib

namespace MagnusPS5.Common

open Function (update update_self update_of_ne update_eq_self update_idem)
open List List.Sublist Option Nat

/-- The fields of the items are maps from slots, and a pointer to an item is its slot. Beyond
`m_size`, the size of `m_items`, stand the fields of a new item. -/
structure LeastRecentlyUsedCache (Object Tick : Type) where
  object : ℕ → Object
  tick : ℕ → Tick
  next : ℕ → Option ℕ
  prev : ℕ → Option ℕ
  m_size : ℕ
  m_free : List ℕ
  m_first : Option ℕ
  m_last : Option ℕ

namespace LeastRecentlyUsedCache

variable {Object Tick : Type}

/-- `item->next = target` or `item->prev = target`, where there is an item. -/
def setLink (links : ℕ → Option ℕ) (item target : Option ℕ) : ℕ → Option ℕ :=
  item.elim links fun id => update links id target

def empty [Inhabited Object] [Inhabited Tick] : LeastRecentlyUsedCache Object Tick :=
  ⟨fun _ => default, fun _ => default, fun _ => none, fun _ => none, 0, [], none, none⟩

variable (c : LeastRecentlyUsedCache Object Tick)

def build : ℕ × LeastRecentlyUsedCache Object Tick :=
  match c.m_free with
  | [] => (c.m_size, { c with m_size := c.m_size + 1 })
  | id :: rest => (id, { c with m_free := rest })

def attach (id : ℕ) : LeastRecentlyUsedCache Object Tick :=
  { c with
    prev := if c.m_last = none then c.prev else update c.prev id c.m_last
    next := if c.m_last = none then c.next
      else update (setLink c.next c.m_last (some id)) id none
    m_first := if c.m_first = none then some id else c.m_first
    m_last := some id }

def detach (id : ℕ) : LeastRecentlyUsedCache Object Tick :=
  let next := setLink c.next (c.prev id) (c.next id)
  let prev := setLink c.prev (next id) (c.prev id)
  { c with
    next, prev
    m_first := if c.m_first = some id then next id else c.m_first
    m_last := if c.m_last = some id then prev id else c.m_last }

def insert (object : Object) (tick : Tick) : ℕ × LeastRecentlyUsedCache Object Tick :=
  let (id, c) := c.build
  (id, { c with object := update c.object id object, tick := update c.tick id tick }.attach id)

def touch [LinearOrder Tick] (c : LeastRecentlyUsedCache Object Tick) (id : ℕ) (tick : Tick) :
    LeastRecentlyUsedCache Object Tick :=
  if c.tick id ≥ tick then c
  else
    let c := { c with tick := update c.tick id tick }
    if c.m_last = some id then c else (c.detach id).attach id

def free (id : ℕ) : LeastRecentlyUsedCache Object Tick :=
  let c := c.detach id
  { c with
    next := update c.next id none
    prev := update c.prev id none
    m_free := c.m_free ++ [id] }

/-- The loop of `ForEachItemBelow`, with the items it calls the function for. The function may
free the item it is called for, and may end the loop. -/
def forEachLoop [LinearOrder Tick] (tick : Tick) (frees stops : ℕ → Bool) :
    ℕ → Option ℕ → LeastRecentlyUsedCache Object Tick →
      Option (List ℕ × LeastRecentlyUsedCache Object Tick)
  | _, none, c => some ([], c)
  | 0, some _, _ => none
  | fuel + 1, some item, c =>
    if c.tick item > tick then some ([], c)
    else
      let next := c.next item
      let c := if frees item then c.free item else c
      if stops item then some ([item], c)
      else (forEachLoop tick frees stops fuel next c).map fun r => (item :: r.1, r.2)

def forEachItemBelow [LinearOrder Tick] (c : LeastRecentlyUsedCache Object Tick) (tick : Tick)
    (frees stops : ℕ → Bool) : Option (List ℕ × LeastRecentlyUsedCache Object Tick) :=
  forEachLoop tick frees stops c.m_size c.m_first c

/-- What lives after a loop that frees items. -/
def freed (visited : List ℕ) (frees : ℕ → Bool) (live : ℕ → Option (Object × Tick)) :
    ℕ → Option (Object × Tick) :=
  fun id => if id ∈ visited ∧ frees id then none else live id

/-- The calls, with ticks that never decrease, and what lives after them. -/
inductive Reached [Inhabited Object] [Inhabited Tick] [LinearOrder Tick] :
    LeastRecentlyUsedCache Object Tick → (ℕ → Option (Object × Tick)) → Tick → Prop
  | empty (now : Tick) : Reached empty (fun _ => none) now
  | insert {c live now} (object : Object) (tick : Tick) (before : Reached c live now)
      (later : now ≤ tick) : Reached (c.insert object tick).2
        (update live (c.insert object tick).1 (some (object, tick))) tick
  | touch {c live now} (id : ℕ) (tick : Tick) {object : Object} {old : Tick}
      (before : Reached c live now) (lives : live id = some (object, old)) (later : now ≤ tick) :
      Reached (c.touch id tick) (update live id (some (object, tick))) tick
  | free {c live now} (id : ℕ) (before : Reached c live now) (lives : live id ≠ none) :
      Reached (c.free id) (update live id none) now
  | forEachItemBelow {c live now d visited} (tick : Tick) (frees stops : ℕ → Bool)
      (before : Reached c live now)
      (loop : c.forEachItemBelow tick frees stops = some (visited, d)) :
      Reached d (freed visited frees live) now

/-! ## Rows of slots -/

variable {next prev next' prev' : ℕ → Option ℕ} {c d : LeastRecentlyUsedCache Object Tick}
  {l pre rest : List ℕ} {id x : ℕ} {p n item : Option ℕ}

/-- The slots stand in a row, behind `p` and before `n`. -/
def Linked (next prev : ℕ → Option ℕ) : Option ℕ → List ℕ → Option ℕ → Prop
  | _, [], _ => True
  | p, id :: rest, n =>
    prev id = p ∧ next id = rest.head?.or n ∧ Linked next prev (some id) rest n

theorem linked_append : Linked next prev p (pre ++ rest) n ↔
    Linked next prev p pre (rest.head?.or n) ∧
      Linked next prev (pre.getLast?.or p) rest n := by
  induction pre generalizing p with
  | nil => simp [Linked]
  | cons id pre ih =>
    have hlast : (id :: pre).getLast?.or p = pre.getLast?.or (some id) := by
      rw [getLast?_cons]
      cases pre.getLast? <;> rfl
    rw [cons_append, Linked, Linked, ih, hlast, head?_append, Option.or_assoc]
    simp only [and_assoc]

theorem Linked.congr (h : Linked next prev p l n) (hnext : ∀ x ∈ l, next' x = next x)
    (hprev : ∀ x ∈ l, prev' x = prev x) : Linked next' prev' p l n := by
  induction l generalizing p with
  | nil => trivial
  | cons id l ih =>
    rw [forall_mem_cons] at hnext hprev
    exact ⟨hprev.1.trans h.1, hnext.1.trans h.2.1, ih h.2.2 hnext.2 hprev.2⟩

theorem setLink_of_ne {links : ℕ → Option ℕ} {target : Option ℕ} (h : item ≠ some x) :
    setLink links item target x = links x := by
  cases item with
  | none => rfl
  | some id => exact update_of_ne (fun heq => h (congrArg some heq.symm)) _ _

theorem getLast?_ne (h : x ∉ l) : l.getLast? ≠ some x := fun hx => h (mem_of_getLast? hx)

theorem head?_ne (h : x ∉ l) : l.head? ≠ some x := fun hx => h (mem_of_head? hx)

/-- The last slot of a row gets another successor. -/
theorem Linked.setNext (h : Linked next prev p l n) (hnodup : l.Nodup) (n' : Option ℕ) :
    Linked (setLink next l.getLast? n') prev p l n' := by
  induction l using reverseRecOn with
  | nil => trivial
  | append_singleton init id =>
    obtain ⟨hinit, hprev, hnext, -⟩ := linked_append.mp h
    have hnot : id ∉ init := fun hmem =>
      disjoint_of_nodup_append hnodup hmem (mem_singleton_self id)
    rw [getLast?_concat]
    refine linked_append.mpr ⟨hinit.congr (fun x hx => setLink_of_ne ?_) fun _ _ => rfl, hprev,
      update_self .., trivial⟩
    rintro ⟨⟩
    exact hnot hx

/-- The first slot of a row gets another predecessor. -/
theorem Linked.setPrev (h : Linked next prev p l n) (hnodup : l.Nodup) (p' : Option ℕ) :
    Linked next (setLink prev l.head? p') p' l n := by
  cases l with
  | nil => trivial
  | cons id rest =>
    refine ⟨update_self .., h.2.1, h.2.2.congr (fun _ _ => rfl) fun x hx => setLink_of_ne ?_⟩
    rintro ⟨⟩
    exact (nodup_cons.mp hnodup).1 hx

/-- The list of the cache is the row `l`. -/
structure Row (c : LeastRecentlyUsedCache Object Tick) (l : List ℕ) : Prop where
  first : c.m_first = l.head?
  last : c.m_last = l.getLast?
  linked : Linked c.next c.prev none l none
  nodup : l.Nodup

namespace Row

theorem attach (h : Row c l) (hnot : id ∉ l)
    (hclear : l = [] → c.next id = none ∧ c.prev id = none) :
    Row (c.attach id) (l ++ [id]) ∧ ∀ x, x ∉ l → x ≠ id →
      (c.attach id).next x = c.next x ∧ (c.attach id).prev x = c.prev x := by
  obtain ⟨hfirst, hlast, hlinked, hnodup⟩ := h
  unfold LeastRecentlyUsedCache.attach
  refine ⟨⟨?_, getLast?_concat.symm, linked_append.mpr ?_,
    hnodup.append (nodup_singleton id) (disjoint_singleton.mpr hnot)⟩,
    fun x hx hne => ?_⟩
  · rw [hfirst, head?_append]
    cases l <;> rfl
  · by_cases hl : l = []
    · -- the only item
      subst hl
      have hnone : c.m_last = none := hlast
      rw [if_pos hnone, if_pos hnone]
      exact ⟨trivial, (hclear rfl).2, (hclear rfl).1, trivial⟩
    · have hsome : l.getLast? ≠ none := by rwa [Ne, getLast?_eq_none_iff]
      have hne : ∀ x ∈ l, x ≠ id := fun x hx heq => hnot (heq ▸ hx)
      simp only [hlast, if_neg hsome, or_none]
      exact ⟨(hlinked.setNext hnodup (some id)).congr (fun x hx => update_of_ne (hne x hx) _ _)
        fun x hx => update_of_ne (hne x hx) _ _, update_self .., update_self .., trivial⟩
  · dsimp only
    split_ifs
    · exact ⟨rfl, rfl⟩
    · rw [update_of_ne hne, update_of_ne hne, hlast, setLink_of_ne (getLast?_ne hx)]
      exact ⟨rfl, rfl⟩

theorem detach (h : Row c (pre ++ id :: rest)) : Row (c.detach id) (pre ++ rest) ∧
    ∀ x, x ∉ pre ++ id :: rest →
      (c.detach id).next x = c.next x ∧ (c.detach id).prev x = c.prev x := by
  obtain ⟨hfirst, hlast, hlinked, hnodup⟩ := h
  obtain ⟨hpre, hprev, hnext, hrest⟩ := linked_append.mp hlinked
  rw [or_none] at hprev hnext
  have hnodup' := hnodup.sublist (append_left (sublist_cons_self id rest) pre)
  obtain ⟨hnodup1, hnodup2, hdisjoint⟩ := nodup_append'.mp hnodup
  obtain ⟨hnot', hnodup2⟩ := nodup_cons.mp hnodup2
  have hnot : id ∉ pre := fun hmem => hdisjoint hmem mem_cons_self
  unfold LeastRecentlyUsedCache.detach
  simp only [hprev, hnext, setLink_of_ne (getLast?_ne hnot), setLink_of_ne (head?_ne hnot'),
    hfirst, hlast]
  refine ⟨⟨?_, ?_, linked_append.mpr ⟨?_, ?_⟩, hnodup'⟩, fun x hx => ?_⟩
  · cases pre with
    | nil => simp
    | cons a pre =>
      have hne : a ≠ id := fun heq => hnot (heq ▸ mem_cons_self)
      simp [hne]
  · rcases eq_nil_or_concat rest with rfl | ⟨init, a, rfl⟩
    · simp
    · rw [concat_eq_append] at hnot' ⊢
      have hne : a ≠ id := fun heq => hnot' (by simp [heq])
      rw [← cons_append, ← append_assoc, ← append_assoc, getLast?_concat,
        getLast?_concat, if_neg (fun heq => hne (some.inj heq))]
  · rw [or_none]
    refine (hpre.setNext hnodup1 rest.head?).congr (fun _ _ => rfl) fun x hx => setLink_of_ne ?_
    exact head?_ne fun hmem => hdisjoint hx (mem_cons_of_mem _ hmem)
  · rw [or_none]
    refine .setPrev (hrest.congr (fun x hx => setLink_of_ne ?_) fun _ _ => rfl) hnodup2 _
    exact getLast?_ne fun hmem => hdisjoint hmem (mem_cons_of_mem _ hx)
  · rw [mem_append, mem_cons, not_or, not_or] at hx
    exact ⟨setLink_of_ne (getLast?_ne hx.1), setLink_of_ne (head?_ne hx.2.2)⟩

end Row

/-! ## What is freed -/

variable {live : ℕ → Option (Object × Tick)}

theorem freed_nil (frees : ℕ → Bool) : freed [] frees live = live :=
  funext fun _ => if_neg fun hx => nomatch hx.1

/-- The first item is freed, and then the others. -/
theorem freed_cons (id : ℕ) (l : List ℕ) (frees : ℕ → Bool) : freed (id :: l) frees live =
    freed l frees (if frees id then update live id none else live) := by
  funext x
  unfold freed
  by_cases hx : x = id
  · subst hx
    cases frees x <;> simp
  · cases frees id <;> simp [hx]

/-! ## What stands in the slots -/

variable [LinearOrder Tick] {now tick : Tick} {object : Object}

/-- The slots of `l` are those that live, the least recently used one first. -/
structure Holds (c : LeastRecentlyUsedCache Object Tick) (live : ℕ → Option (Object × Tick))
    (now : Tick) (l : List ℕ) : Prop where
  live : ∀ x, live x = if x ∈ l then some (c.object x, c.tick x) else none
  sorted : l.Pairwise fun x y => c.tick x ≤ c.tick y
  bound : ∀ x ∈ l, x < c.m_size ∧ c.tick x ≤ now
  distinct : c.m_free.Nodup
  free : ∀ x ∈ c.m_free, x < c.m_size ∧ x ∉ l

theorem Holds.drop (h : Holds c live now (pre ++ id :: rest)) (hnot : id ∉ pre ++ rest) :
    Holds c (update live id none) now (pre ++ rest) := by
  have hsub : (pre ++ rest).Sublist (pre ++ id :: rest) :=
    append_left (sublist_cons_self id rest) pre
  refine ⟨fun x => ?_, h.sorted.sublist hsub, fun x hx => h.bound x (hsub.subset hx), h.distinct,
    fun x hx => ⟨(h.free x hx).1, fun hmem => (h.free x hx).2 (hsub.subset hmem)⟩⟩
  by_cases hx : x = id
  · rw [hx, update_self, if_neg hnot]
  · rw [update_of_ne hx, h.live]
    simp [hx]

/-- A slot is written that is not in the list, and comes to its end. -/
theorem Holds.push (h : Holds c live now l) (hobject : d.object = update c.object id object)
    (htick : d.tick = update c.tick id tick) (hsize : c.m_size ≤ d.m_size)
    (hfree : d.m_free.Sublist c.m_free) (hid : id < d.m_size ∧ id ∉ d.m_free) (hnot : id ∉ l)
    (hnow : now ≤ tick) : Holds d (update live id (some (object, tick))) tick (l ++ [id]) := by
  have hne : ∀ x ∈ l, x ≠ id := fun x hx heq => hnot (heq ▸ hx)
  have hold : ∀ x ∈ l, d.tick x = c.tick x := fun x hx => by rw [htick, update_of_ne (hne x hx)]
  have hnew : d.tick id = tick := by rw [htick, update_self]
  refine ⟨fun x => ?_, pairwise_append.mpr ⟨h.sorted.imp_of_mem fun hx hy hle => ?_,
    pairwise_singleton _ _, fun x hx y hy => ?_⟩, fun x hx => ?_, h.distinct.sublist hfree,
    fun x hx => ⟨lt_of_lt_of_le (h.free x (hfree.subset hx)).1 hsize, fun hmem => ?_⟩⟩
  · by_cases hx : x = id
    · simp [hx, hobject, htick]
    · rw [update_of_ne hx, h.live, hobject, htick, update_of_ne hx, update_of_ne hx]
      simp [hx]
  · rwa [hold _ hx, hold _ hy]
  · rw [mem_singleton.mp hy, hold x hx, hnew]
    exact le_trans (h.bound x hx).2 hnow
  · rcases mem_append.mp hx with hx | hx
    · rw [hold x hx]
      exact ⟨lt_of_lt_of_le (h.bound x hx).1 hsize, le_trans (h.bound x hx).2 hnow⟩
    · rw [mem_singleton.mp hx, hnew]
      exact ⟨hid.1, le_rfl⟩
  · rcases mem_append.mp hmem with hmem | hmem
    · exact (h.free x (hfree.subset hx)).2 hmem
    · exact hid.2 (mem_singleton.mp hmem ▸ hx)

/-! ## The calls -/

/-- The list of the cache, what stands in it, and that the other slots are not linked. -/
structure Inv (c : LeastRecentlyUsedCache Object Tick) (live : ℕ → Option (Object × Tick))
    (now : Tick) (l : List ℕ) : Prop where
  row : Row c l
  holds : Holds c live now l
  clear : ∀ x, x ∉ l → c.next x = none ∧ c.prev x = none

namespace Inv

theorem free (h : Inv c live now (pre ++ id :: rest)) :
    Inv (c.free id) (update live id none) now (pre ++ rest) := by
  have hmem : id ∈ pre ++ id :: rest := mem_append_right _ mem_cons_self
  have hnot : id ∉ pre ++ rest := (nodup_middle.mp h.row.nodup).notMem
  have hne : ∀ x ∈ pre ++ rest, x ≠ id := fun x hx heq => hnot (heq ▸ hx)
  have hfree : id ∉ c.m_free := fun hid => (h.holds.free id hid).2 hmem
  obtain ⟨⟨hfirst, hlast, hlinked, hnodup⟩, hout⟩ := h.row.detach
  obtain ⟨hlive, hsorted, hbound, hdistinct, hin⟩ := h.holds.drop hnot
  unfold LeastRecentlyUsedCache.free
  refine ⟨⟨hfirst, hlast, hlinked.congr (fun x hx => update_of_ne (hne x hx) _ _)
    fun x hx => update_of_ne (hne x hx) _ _, hnodup⟩, ⟨hlive, hsorted, hbound,
    hdistinct.append (nodup_singleton id) (disjoint_singleton.mpr hfree),
    fun x hx => ?_⟩, fun x hx => ?_⟩
  · rcases mem_append.mp hx with hx | hx
    · exact hin x hx
    · rw [mem_singleton.mp hx]
      exact ⟨(h.holds.bound id hmem).1, hnot⟩
  · by_cases hid : x = id
    · simp [hid]
    · have hx' : x ∉ pre ++ id :: rest := by simpa [hid] using hx
      simpa [hid, hout x hx'] using h.clear x hx'

theorem insert (h : Inv c live now l) (hnow : now ≤ tick) :
    (c.insert object tick).1 ∉ l ∧ Inv (c.insert object tick).2
      (update live (c.insert object tick).1 (some (object, tick))) tick
      (l ++ [(c.insert object tick).1]) := by
  obtain ⟨id, size, rest, hbuild, hnot, hsize, hrest, hid⟩ : ∃ id size rest,
      c.build = (id, { c with m_size := size, m_free := rest }) ∧ id ∉ l ∧ c.m_size ≤ size ∧
        rest.Sublist c.m_free ∧ id < size ∧ id ∉ rest := by
    unfold build
    cases hc : c.m_free with
    | nil => exact ⟨_, _, _, rfl, fun hmem => lt_irrefl _ (h.holds.bound _ hmem).1,
        le_succ _, refl _, lt_succ_self _, not_mem_nil⟩
    | cons id rest =>
      obtain ⟨h1, h2⟩ := h.holds.free id (by simp [hc])
      exact ⟨_, _, _, rfl, h2, le_refl _, sublist_cons_self id rest, h1,
        (nodup_cons.mp (hc ▸ h.holds.distinct)).1⟩
  unfold LeastRecentlyUsedCache.insert
  rw [hbuild]
  set d : LeastRecentlyUsedCache Object Tick := { c with
    object := update c.object id object, tick := update c.tick id tick
    m_size := size, m_free := rest }
  have hrow : Row d l := ⟨h.row.first, h.row.last, h.row.linked, h.row.nodup⟩
  obtain ⟨hrow, hout⟩ := hrow.attach hnot fun _ => h.clear id hnot
  refine ⟨hnot, hrow, h.holds.push rfl rfl hsize hrest hid hnot hnow, fun x hx => ?_⟩
  rw [mem_append, mem_singleton, not_or] at hx
  rw [(hout x hx.1 hx.2).1, (hout x hx.1 hx.2).2]
  exact h.clear x hx.1

theorem touch (h : Inv c live now (pre ++ id :: rest)) (hnow : now ≤ tick) :
    ∃ l, Inv (c.touch id tick) (update live id (some (c.object id, tick))) tick l := by
  have hmem : id ∈ pre ++ id :: rest := mem_append_right _ mem_cons_self
  have hnot : id ∉ pre ++ rest := (nodup_middle.mp h.row.nodup).notMem
  have hbound := h.holds.bound id hmem
  have hfree : id ∉ c.m_free := fun hid => (h.holds.free id hid).2 hmem
  set d : LeastRecentlyUsedCache Object Tick := { c with tick := update c.tick id tick }
  have hrow : Row d (pre ++ id :: rest) :=
    ⟨h.row.first, h.row.last, h.row.linked, h.row.nodup⟩
  have hholds : Holds d (update live id (some (c.object id, tick))) tick (pre ++ rest ++ [id]) := by
    have hidem : update (update live id none) id (some (c.object id, tick))
        = update live id (some (c.object id, tick)) := update_idem ..
    rw [← hidem]
    exact (h.holds.drop hnot).push (update_eq_self ..).symm rfl le_rfl
      (refl _) ⟨hbound.1, hfree⟩ hnot hnow
  unfold LeastRecentlyUsedCache.touch
  dsimp only
  split_ifs with hsame hlast
  · -- the tick is the one it has
    obtain rfl : now = tick := le_antisymm hnow (le_trans hsame hbound.2)
    have hid := h.holds.live id
    rw [if_pos hmem, le_antisymm hbound.2 hsame] at hid
    exact ⟨_, by rwa [← hid, update_eq_self]⟩
  · -- it is the last item, and stays
    have hrest := getLast?_ne (nodup_cons.mp (nodup_append'.mp h.row.nodup).2.1).1
    rw [h.row.last, getLast?_append, getLast?_cons] at hlast
    have hnil : rest = [] := by
      cases hr : rest.getLast? with
      | none => exact getLast?_eq_none_iff.mp hr
      | some a =>
        rw [hr] at hlast hrest
        exact absurd hlast hrest
    subst hnil
    rw [append_nil] at hholds
    exact ⟨_, hrow, hholds, h.clear⟩
  · obtain ⟨hrow', hout⟩ := hrow.detach
    obtain ⟨hrow'', hout'⟩ := hrow'.attach hnot fun hnil => by
      obtain ⟨rfl, rfl⟩ := append_eq_nil_iff.mp hnil
      exact absurd h.row.last hlast
    refine ⟨_, hrow'', ⟨hholds.1, hholds.2, hholds.3, hholds.4, hholds.5⟩, fun x hx => ?_⟩
    rw [mem_append, mem_singleton, not_or] at hx
    have hx' : x ∉ pre ++ id :: rest := by
      simpa [hx.2] using hx.1
    rw [(hout' x hx.1 hx.2).1, (hout' x hx.1 hx.2).2, (hout x hx').1, (hout x hx').2]
    exact h.clear x hx'

end Inv

/-- The items the loop is to visit: those that are due, up to the first that ends it. -/
def visitedOf (tick : Tick) (stops : ℕ → Bool) (l : List ℕ) : List ℕ :=
  let due := l.filter fun id => c.tick id ≤ tick
  due.take (due.findIdx stops + 1)

/-- The loop from a slot of the list on visits the items that are due up to the first that ends
it, and what it frees is gone from the list. -/
theorem forEachLoop_spec {frees stops : ℕ → Bool} {fuel : ℕ} (h : Inv c live now (pre ++ rest))
    (hfuel : rest.length ≤ fuel) :
    ∃ d l, forEachLoop tick frees stops fuel rest.head? c =
        some (c.visitedOf tick stops rest, d) ∧
      Inv d (freed (c.visitedOf tick stops rest) frees live) now l := by
  induction rest generalizing fuel pre c live with
  | nil =>
    have hlive : freed [] frees live = live := freed_nil frees
    exact ⟨c, _, by cases fuel <;> rfl, hlive.symm ▸ h⟩
  | cons id rest ih =>
    cases fuel with
    | zero => cases hfuel
    | succ fuel =>
      rw [head?_cons, forEachLoop]
      by_cases hdue : c.tick id > tick
      · -- the items behind have been used later
        have hsorted := pairwise_cons.mp (pairwise_append.mp h.holds.sorted).2.1
        have hnil : c.visitedOf tick stops (id :: rest) = [] := by
          have hdue' : (id :: rest).filter (fun id => c.tick id ≤ tick) = [] := by
            rw [filter_eq_nil_iff]
            intro x hx
            rw [decide_eq_true_iff, not_le]
            rcases mem_cons.mp hx with rfl | hx
            · exact hdue
            · exact lt_of_lt_of_le hdue (hsorted.1 x hx)
          rw [visitedOf, hdue']
          rfl
        rw [if_pos hdue, hnil, freed_nil]
        exact ⟨c, _, rfl, h⟩
      · have hnext : c.next id = rest.head? := by
          have hlinked := (linked_append.mp h.row.linked).2.2.1
          rwa [or_none] at hlinked
        have hvisited : c.visitedOf tick stops (id :: rest) =
            id :: if stops id then [] else c.visitedOf tick stops rest := by
          unfold visitedOf
          rw [filter_cons_of_pos (by simpa using hdue)]
          dsimp only
          rw [findIdx_cons]
          cases stops id <;> simp
        -- the cache after the function was called for the item
        obtain ⟨pre', hinv, htick⟩ : ∃ pre', Inv (if frees id then c.free id else c)
              (if frees id then update live id none else live) now (pre' ++ rest) ∧
            (if frees id then c.free id else c).tick = c.tick := by
          cases frees id with
          | true => exact ⟨pre, h.free, rfl⟩
          | false => exact ⟨pre ++ [id], by simpa using h, rfl⟩
        rw [if_neg hdue, hnext, hvisited, freed_cons]
        cases stops id with
        | true =>
          simp only [if_true, freed_nil]
          exact ⟨_, _, rfl, hinv⟩
        | false =>
          obtain ⟨d, l, hloop, hd⟩ := ih hinv (le_of_succ_le_succ hfuel)
          have hsame : (if frees id then c.free id else c).visitedOf tick stops rest =
              c.visitedOf tick stops rest := by
            unfold visitedOf
            rw [htick]
          rw [hsame] at hloop hd
          dsimp only
          rw [hloop]
          exact ⟨d, l, rfl, hd⟩

/-- `ForEachItemBelow` is the loop over the list of the cache. -/
theorem Inv.forEachItemBelow (h : Inv c live now l) (tick : Tick) (frees stops : ℕ → Bool) :
    ∃ d l', c.forEachItemBelow tick frees stops = some (c.visitedOf tick stops l, d) ∧
      Inv d (freed (c.visitedOf tick stops l) frees live) now l' := by
  have hsub : l ⊆ .range c.m_size := fun id hid => mem_range.mpr (h.holds.bound id hid).1
  have hlength := h.row.nodup.length_le_of_subset hsub
  rw [length_range] at hlength
  rw [LeastRecentlyUsedCache.forEachItemBelow, h.row.first]
  exact forEachLoop_spec (show Inv c live now ([] ++ l) from h) hlength

variable [Inhabited Object] [Inhabited Tick]

/-- After every sequence of calls the cache has a list. -/
theorem Reached.inv (h : Reached c live now) : ∃ l, Inv c live now l := by
  induction h with
  | empty now =>
    exact ⟨[], ⟨rfl, rfl, trivial, nodup_nil⟩,
      ⟨fun _ => rfl, .nil, nofun, nodup_nil, nofun⟩, fun _ _ => ⟨rfl, rfl⟩⟩
  | insert object tick before later ih =>
    obtain ⟨l, h⟩ := ih
    exact ⟨_, (h.insert later).2⟩
  | touch id tick before lives later ih =>
    obtain ⟨l, h⟩ := ih
    rw [h.holds.live] at lives
    split_ifs at lives with hmem
    obtain ⟨pre, rest, rfl⟩ := append_of_mem hmem
    cases lives
    exact h.touch later
  | free id before lives ih =>
    obtain ⟨l, h⟩ := ih
    rw [h.holds.live] at lives
    split_ifs at lives with hmem
    · obtain ⟨pre, rest, rfl⟩ := append_of_mem hmem
      exact ⟨_, h.free⟩
    · exact absurd rfl lives
  | forEachItemBelow tick frees stops before loop ih =>
    obtain ⟨l, h⟩ := ih
    obtain ⟨d, l', hloop, hd⟩ := h.forEachItemBelow tick frees stops
    cases loop.symm.trans hloop
    exact ⟨l', hd⟩

/-- **The cache**: its list is a well-formed doubly linked list of the items that live, sorted by
tick; a new item gets a slot that no other one has; and `ForEachItemBelow` visits the items that
are due in this order up to the first that ends it, whichever of them it frees, and leaves a cache
of what it has not freed. -/
theorem lru_cache (h : Reached c live now) :
    ∃ l, Row c l ∧
      (∀ id, live id = if id ∈ l then some (c.object id, c.tick id) else none) ∧
      (l.Pairwise fun x y => c.tick x ≤ c.tick y) ∧
      (∀ object tick, now ≤ tick → live (c.insert object tick).1 = none) ∧
      ∀ tick frees stops, ∃ d,
        c.forEachItemBelow tick frees stops = some (c.visitedOf tick stops l, d) ∧
        Reached d (freed (c.visitedOf tick stops l) frees live) now := by
  obtain ⟨l, hinv⟩ := h.inv
  refine ⟨l, hinv.row, hinv.holds.live, hinv.holds.sorted, fun object tick hnow => ?_,
    fun tick frees stops => ?_⟩
  · rw [hinv.holds.live, if_neg (hinv.insert hnow).1]
  · obtain ⟨d, l', hloop, -⟩ := hinv.forEachItemBelow tick frees stops
    exact ⟨d, hloop, h.forEachItemBelow tick frees stops hloop⟩

/-- Two items are put in, the first of them is used again, and the function frees what it is
called for: the second one, which is gone afterwards. -/
theorem lru_cache_used_again :
    let c := (((empty : LeastRecentlyUsedCache ℕ ℕ).insert 7 1).2.insert 8 2).2.touch 0 3
    ∃ live d, c.forEachItemBelow 2 (fun _ => true) (fun _ => false) = some ([1], d) ∧
      Reached d live 3 ∧ live 0 = some (7, 3) ∧ live 1 = none := by
  intro c
  have hinsert : Reached (((empty : LeastRecentlyUsedCache ℕ ℕ).insert 7 1).2.insert 8 2).2 _ 2 :=
    .insert 8 2 (.insert 7 1 (.empty 0) (by decide)) (by decide)
  have htouch := Reached.touch 0 3 hinsert (show _ = some (7, 1) from rfl) (by decide)
  obtain ⟨l, -, -, -, -, hvisit⟩ := lru_cache htouch
  obtain ⟨d, hloop, hd⟩ := hvisit 2 (fun _ => true) fun _ => false
  have hfirst : (c.forEachItemBelow 2 (fun _ => true) fun _ => false).map Prod.fst = some [1] :=
    rfl
  have hvisited := some.inj ((congrArg (Option.map Prod.fst) hloop).symm.trans hfirst)
  dsimp only at hvisited
  rw [hvisited] at hloop hd
  exact ⟨_, d, hloop, hd, rfl, rfl⟩

/-- `Free` does not look whether the item lives: freed twice, its slot goes to two items. -/
theorem free_twice_shares :
    let c := (((empty : LeastRecentlyUsedCache ℕ ℕ).insert 7 0).2.free 0).free 0
    (c.insert 8 0).1 = ((c.insert 8 0).2.insert 9 0).1 := by
  decide

end LeastRecentlyUsedCache

end MagnusPS5.Common
