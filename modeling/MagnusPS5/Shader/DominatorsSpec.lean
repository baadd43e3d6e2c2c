/-
What the loop `while (changed)` of the dominator analyses computes.

Every set stays between what it has to hold in the end (what all routes pass) and what its
equation asks for, and every change makes a set smaller. A round without a change has
solved the equations, and the solution is what all routes pass.
-/
import MagnusPS5.Lib.Routes
import MagnusPS5.Shader.ControlFlowGraphRun
import MagnusPS5.Shader.Dominators

namespace MagnusPS5.Shader.CFG

open Decoder Lib List Nat

/-! ## Sorted lists as sets -/

theorem length_lt_of_subset {xs ys : List ℕ} (hxs : xs.Pairwise (· < ·))
    (hys : ys.Pairwise (· < ·)) (hsub : ∀ x ∈ xs, x ∈ ys) (hne : xs ≠ ys) :
    xs.length < ys.length := by
  have hsublist : xs.Sublist ys :=
    sublist_of_subperm_of_pairwise (hxs.nodup.subperm hsub) hxs hys
  by_contra hlength
  exact hne (hsublist.eq_of_length_le (not_lt.mp hlength))

theorem sortUnique_pairwise (xs : List ℕ) : (sortUnique xs).Pairwise (· < ·) := by
  induction xs with
  | nil => exact .nil
  | cons x xs ih => exact insertSorted_pairwise ih

variable {x v : ℕ} {sets : List (List ℕ)}

theorem mem_dropWhile_lt {bs : List ℕ} (hbs : bs.Pairwise (· < ·)) {a : ℕ} :
    x ∈ bs.dropWhile (fun b => b < a) ↔ x ∈ bs ∧ a ≤ x := by
  induction bs with
  | nil => simp
  | cons b bs ih =>
    rw [pairwise_cons] at hbs
    rw [dropWhile_cons]
    by_cases hlt : b < a
    · rw [if_pos (decide_eq_true hlt), ih hbs.2, mem_cons]
      constructor
      · rintro ⟨hx, hle⟩
        exact ⟨.inr hx, hle⟩
      · rintro ⟨rfl | hx, hle⟩
        · exact absurd hlt (not_lt.mpr hle)
        · exact ⟨hx, hle⟩
    · rw [if_neg (by simpa using hlt)]
      constructor
      · intro hx
        refine ⟨hx, ?_⟩
        rcases mem_cons.mp hx with rfl | hx
        · exact not_lt.mp hlt
        · exact (not_lt.mp hlt).trans (hbs.1 x hx).le
      · exact And.left

theorem dropWhile_pairwise {bs : List ℕ} (hbs : bs.Pairwise (· < ·)) (a : ℕ) :
    (bs.dropWhile fun b => b < a).Pairwise (· < ·) :=
  hbs.sublist (dropWhile_sublist _)

/-- **`IntersectSorted` intersects sorted lists.** -/
theorem mem_intersectSorted {as bs : List ℕ} (has : as.Pairwise (· < ·))
    (hbs : bs.Pairwise (· < ·)) : x ∈ intersectSorted as bs ↔ x ∈ as ∧ x ∈ bs := by
  induction as generalizing bs with
  | nil => simp [intersectSorted]
  | cons a as ih =>
    rw [pairwise_cons] at has
    have hmem := mem_dropWhile_lt hbs (a := a) (x := x)
    have hsorted := dropWhile_pairwise hbs a
    have hge : ∀ y ∈ as, a < y := has.1
    unfold intersectSorted
    split
    · next hnil =>
      rw [hnil] at hmem
      constructor
      · intro hx
        nomatch hx
      · rintro ⟨hx, hbx⟩
        have hle : a ≤ x := by
          rcases mem_cons.mp hx with rfl | hx
          · exact le_refl _
          · exact (hge x hx).le
        nomatch (hmem.mpr ⟨hbx, hle⟩)
    · next b rest hcons =>
      rw [hcons] at hmem hsorted
      have hfirst := (pairwise_cons.mp hsorted).1
      by_cases hba : b = a
      · rw [if_pos hba, mem_cons, ih has.2 (pairwise_cons.mp hsorted).2, mem_cons]
        constructor
        · rintro (rfl | ⟨hx, hrest⟩)
          · exact ⟨.inl rfl, (hmem.mp (hba ▸ .head _)).1⟩
          · exact ⟨.inr hx, (hmem.mp (.tail _ hrest)).1⟩
        · rintro ⟨rfl | hx, hbx⟩
          · exact .inl rfl
          · refine .inr ⟨hx, ?_⟩
            have hx' := hmem.mpr ⟨hbx, (hge x hx).le⟩
            exact (mem_cons.mp hx').resolve_left fun heq =>
              absurd (hge x hx) (by omega)
      · rw [if_neg hba, ih has.2 hsorted]
        have hab : a < b := by
          have hb := (mem_dropWhile_lt hbs (a := a) (x := b)).mp (hcons ▸ .head _)
          omega
        constructor
        · rintro ⟨hx, hrest⟩
          exact ⟨.tail _ hx, (hmem.mp hrest).1⟩
        · rintro ⟨hx, hbx⟩
          rcases mem_cons.mp hx with rfl | hx
          · -- the first element is behind the other list's
            have hx' := hmem.mpr ⟨hbx, le_refl _⟩
            rcases mem_cons.mp hx' with heq | hrest
            · exact absurd heq.symm hba
            · exact absurd (hfirst x hrest) (by omega)
          · exact ⟨hx, hmem.mpr ⟨hbx, (hge x hx).le⟩⟩

theorem intersectSorted_sublist (as bs : List ℕ) : (intersectSorted as bs).Sublist as := by
  induction as generalizing bs with
  | nil => exact .refl _
  | cons a as ih =>
    unfold intersectSorted
    split
    · exact nil_sublist _
    · split
      · exact (ih _).cons_cons _
      · exact (ih _).cons _

section

variable (hsets : ∀ link : ℕ, (sets.getD link []).Pairwise (· < ·))

include hsets

theorem mem_foldl_intersect {first rest : List ℕ} (hfirst : first.Pairwise (· < ·)) :
    x ∈ rest.foldl (fun next link => intersectSorted next (sets.getD link [])) first ↔
      x ∈ first ∧ ∀ link ∈ rest, x ∈ sets.getD link [] := by
  induction rest generalizing first with
  | nil => simp
  | cons link rest ih =>
    rw [foldl_cons, ih (hfirst.sublist (intersectSorted_sublist _ _)),
      mem_intersectSorted hfirst (hsets link), forall_mem_cons, and_assoc]

/-- **What a block gets**: itself, and what all sets behind its links hold. -/
theorem mem_nextSet {id : ℕ} {links : List ℕ} : x ∈ nextSet sets id links ↔
      x = id ∨ (links ≠ [] ∧ ∀ link ∈ links, x ∈ sets.getD link []) := by
  cases links with
  | nil => simp [nextSet]
  | cons first rest =>
    rw [nextSet, mem_sortUnique, mem_addUnique, mem_foldl_intersect hsets (hsets first),
      forall_mem_cons]
    simp only [ne_eq, reduceCtorEq, not_false_eq_true, true_and]
    exact or_comm

end

theorem nextSet_pairwise (sets : List (List ℕ)) (id : ℕ) (links : List ℕ) :
    (nextSet sets id links).Pairwise (· < ·) := by
  cases links with
  | nil => exact pairwise_singleton _ _
  | cons first rest => exact sortUnique_pairwise _

/-! ## Changing one set -/

theorem getD_set (hv : v < sets.length) (next : List ℕ) (w : ℕ) :
    (sets.set v next).getD w [] = if w = v then next else sets.getD w [] := by
  rw [getD_eq_getElem?_getD, getD_eq_getElem?_getD, getElem?_set]
  by_cases heq : v = w
  · rw [if_pos heq, if_pos heq.symm, if_pos (heq ▸ hv)]
    rfl
  · rw [if_neg heq, if_neg (Ne.symm heq)]

/-- The number of elements of all sets. -/
def measure (sets : List (List ℕ)) : ℕ := (sets.map List.length).sum

theorem measure_set_lt {next : List ℕ} (hv : v < sets.length)
    (hshort : next.length < (sets.getD v []).length) :
    measure (sets.set v next) < measure sets := by
  induction sets generalizing v with
  | nil => exact absurd hv (not_lt_zero _)
  | cons s sets ih =>
    unfold measure
    cases v with
    | zero =>
      rw [set_cons_zero, map_cons, map_cons, sum_cons, sum_cons]
      exact Nat.add_lt_add_right hshort _
    | succ v =>
      rw [set_cons_succ, map_cons, map_cons, sum_cons, sum_cons]
      exact Nat.add_lt_add_left (ih (Nat.lt_of_succ_lt_succ hv) hshort) _

/-! ## The invariant -/

section Refine

variable {fixed : ℕ → Bool} {links : BasicBlock → List ℕ} {blocks : List BasicBlock}

/-- The links of the block at a place. -/
def linksAt (links : BasicBlock → List ℕ) (blocks : List BasicBlock) (v : ℕ) : List ℕ :=
  (blocks[v]?.map links).getD []

/-- Routes along the links stop at the fixed blocks and at those without links. -/
def stopAt (fixed : ℕ → Bool) (links : BasicBlock → List ℕ) (blocks : List BasicBlock) (v : ℕ) :
    Prop :=
  fixed v = true ∨ linksAt links blocks v = []

/-- What the routes from a block along the links pass. -/
def PassesAt (fixed : ℕ → Bool) (links : BasicBlock → List ℕ) (blocks : List BasicBlock)
    (v d : ℕ) : Prop :=
  Passes (fun a b => b ∈ linksAt links blocks a) (stopAt fixed links blocks) v d

/-- The blocks stand at their ids, and their links are blocks. -/
structure Linked (links : BasicBlock → List ℕ) (blocks : List BasicBlock) : Prop where
  ids : ∀ (j : ℕ) (block : BasicBlock), blocks[j]? = some block → block.id = j
  closed : ∀ block ∈ blocks, ∀ link ∈ links block, link < blocks.length

/-- **The sets on their way down.** They hold what all routes pass (`above`), and not less than
their equations ask for (`below`). -/
structure Between (fixed : ℕ → Bool) (links : BasicBlock → List ℕ) (blocks : List BasicBlock)
    (sets : List (List ℕ)) : Prop where
  length : sets.length = blocks.length
  sorted : ∀ v : ℕ, (sets.getD v []).Pairwise (· < ·)
  bound : ∀ v : ℕ, ∀ d ∈ sets.getD v [], d < blocks.length
  above : ∀ v d, v < blocks.length → d < blocks.length → PassesAt fixed links blocks v d →
    d ∈ sets.getD v []
  below : ∀ v, v < blocks.length → fixed v = false →
    ∀ d ∈ nextSet sets v (linksAt links blocks v), d ∈ sets.getD v []
  fixed : ∀ v, v < blocks.length → fixed v = true → sets.getD v [] = [v]

/-- The set of a block solves its equation. -/
def Settled (fixed : ℕ → Bool) (links : BasicBlock → List ℕ) (sets : List (List ℕ))
    (block : BasicBlock) : Prop :=
  fixed block.id = true ∨ nextSet sets block.id (links block) = sets.getD block.id []

theorem Linked.linksAt (h : Linked links blocks) {block : BasicBlock} (hmem : block ∈ blocks) :
    block.id < blocks.length ∧ linksAt links blocks block.id = links block := by
  obtain ⟨j, hj⟩ := mem_iff_getElem?.mp hmem
  obtain rfl := h.ids j block hj
  refine ⟨(List.getElem?_eq_some_iff.mp hj).1, ?_⟩
  rw [CFG.linksAt, hj]
  rfl

theorem Linked.linksAt_lt (h : Linked links blocks) {link : ℕ}
    (hlink : link ∈ CFG.linksAt links blocks v) : link < blocks.length := by
  unfold CFG.linksAt at hlink
  cases hv : blocks[v]? with
  | none =>
    rw [hv] at hlink
    nomatch hlink
  | some block =>
    rw [hv] at hlink
    exact h.closed block (mem_of_getElem? hv) link hlink

theorem Between.set (hlinked : Linked links blocks)
    (h : Between fixed links blocks sets) (hv : v < blocks.length) (hfree : fixed v = false) :
    Between fixed links blocks (sets.set v (nextSet sets v (linksAt links blocks v))) := by
  have hlen : v < sets.length := h.length ▸ hv
  have hget := getD_set hlen (nextSet sets v (linksAt links blocks v))
  -- every set is below the one before
  have hdown : ∀ w : ℕ, ∀ d ∈ (sets.set v (nextSet sets v (linksAt links blocks v))).getD w [],
      d ∈ sets.getD w [] := by
    intro w d hd
    rw [hget] at hd
    split_ifs at hd with heq
    · rw [heq]
      exact h.below v hv hfree d hd
    · exact hd
  have hsorted : ∀ w : ℕ, ((sets.set v (nextSet sets v (linksAt links blocks v))).getD w
      []).Pairwise (· < ·) := by
    intro w
    rw [hget]
    split_ifs
    · exact nextSet_pairwise _ _ _
    · exact h.sorted w
  -- and so is what the equations give
  have hnext : ∀ w : ℕ, ∀ d ∈ nextSet (sets.set v (nextSet sets v (linksAt links blocks v))) w
      (linksAt links blocks w), d ∈ nextSet sets w (linksAt links blocks w) := by
    intro w d hd
    rw [mem_nextSet hsorted] at hd
    rw [mem_nextSet h.sorted]
    exact hd.imp_right fun hlinks => ⟨hlinks.1, fun link hlink => hdown _ _ (hlinks.2 link hlink)⟩
  refine ⟨(length_set ..).trans h.length, hsorted, fun w d hd => h.bound w d (hdown w d hd),
    fun w d hw hd hpasses => ?_, fun w hw hfixed d hd => ?_, fun w hw hfixed => ?_⟩
  · rw [hget]
    split_ifs with heq
    · -- what all routes from a block pass, all routes from the blocks behind it pass
      subst heq
      rw [mem_nextSet h.sorted]
      by_cases hself : d = w
      · exact .inl hself
      · refine .inr ⟨fun hnil => hself ?_, fun link hlink => ?_⟩
        · exact hpasses.of_stop (.inr hnil)
        · exact h.above link d (hlinked.linksAt_lt hlink) hd (hpasses.next hself hlink)
    · exact h.above w d hw hd hpasses
  · have hold := hnext w d hd
    rw [hget]
    split_ifs with heq
    · rw [← heq]
      exact hold
    · exact h.below w hw hfixed d hold
  · rw [hget, if_neg, h.fixed w hw hfixed]
    rintro rfl
    exact absurd hfixed (by simp [hfree])

/-- **The step.** A block leaves the sets as they are and is settled, or makes them smaller. -/
theorem refineBlock_spec (changed : Bool) (hlinked : Linked links blocks)
    (h : Between fixed links blocks sets) {block : BasicBlock} (hmem : block ∈ blocks) :
    (refineBlock fixed links (sets, changed) block = (sets, changed) ∧
      Settled fixed links sets block) ∨
    ∃ sets', refineBlock fixed links (sets, changed) block = (sets', true) ∧
      Between fixed links blocks sets' ∧ measure sets' < measure sets := by
  obtain ⟨hid, hlinks⟩ := hlinked.linksAt hmem
  unfold refineBlock
  by_cases hfixed : fixed block.id = true
  · rw [if_pos hfixed]
    exact .inl ⟨rfl, .inl hfixed⟩
  · have hfree : fixed block.id = false := by simpa using hfixed
    rw [if_neg hfixed]
    by_cases hsame : nextSet sets block.id (links block) = sets.getD block.id []
    · rw [if_neg (not_not.mpr hsame)]
      exact .inl ⟨rfl, .inr hsame⟩
    · rw [if_pos hsame]
      refine .inr ⟨_, rfl, ?_, ?_⟩
      · rw [← hlinks]
        exact h.set hlinked hid hfree
      · refine measure_set_lt (h.length ▸ hid) ?_
        refine length_lt_of_subset (nextSet_pairwise _ _ _) (h.sorted _) (fun d hd => ?_) hsame
        rw [← hlinks] at hd
        exact h.below block.id hid hfree d hd

theorem foldl_refineBlock (changed : Bool) (hlinked : Linked links blocks) {bs : List BasicBlock}
    (hbs : ∀ block ∈ bs, block ∈ blocks) (h : Between fixed links blocks sets) :
    (bs.foldl (refineBlock fixed links) (sets, changed) = (sets, changed) ∧
      ∀ block ∈ bs, Settled fixed links sets block) ∨
    ∃ sets', bs.foldl (refineBlock fixed links) (sets, changed) = (sets', true) ∧
      Between fixed links blocks sets' ∧ measure sets' < measure sets := by
  induction bs generalizing sets changed with
  | nil => exact .inl ⟨rfl, fun block hblock => nomatch hblock⟩
  | cons block bs ih =>
    have hrest := fun b hb => hbs b (mem_cons_of_mem block hb)
    rw [foldl_cons]
    rcases refineBlock_spec changed hlinked h (hbs block mem_cons_self) with
      ⟨hsame, hsettled⟩ | ⟨sets1, hstep, h1, hlt⟩
    · rw [hsame]
      rcases ih changed hrest h with ⟨hall, hsettledAll⟩ | hchange
      · exact .inl ⟨hall, forall_mem_cons.mpr ⟨hsettled, hsettledAll⟩⟩
      · exact .inr hchange
    · rw [hstep]
      rcases ih true hrest h1 with ⟨hall, _⟩ | ⟨sets2, hrun, h2, hlt2⟩
      · exact .inr ⟨sets1, hall, h1, hlt⟩
      · exact .inr ⟨sets2, hrun, h2, hlt2.trans hlt⟩

section

variable (hlinked : Linked links blocks)

include hlinked

/-- **The run.** With more rounds than the sets have elements the loop comes to an end, and all
blocks are settled then. -/
theorem refineLoop_spec {fuel : ℕ}
    (h : Between fixed links blocks sets) (hfuel : measure sets < fuel) :
    ∃ last, refineLoop fixed links blocks fuel sets = some last ∧
      Between fixed links blocks last ∧ ∀ block ∈ blocks, Settled fixed links last block := by
  induction fuel generalizing sets with
  | zero => exact absurd hfuel (not_lt_zero _)
  | succ fuel ih =>
    unfold refineLoop refineRound
    rcases foldl_refineBlock false hlinked (fun b hb => hb) h with
      ⟨hsame, hsettled⟩ | ⟨sets', hchange, h', hlt⟩
    · rw [hsame, if_neg (by simp)]
      exact ⟨sets, rfl, h, hsettled⟩
    · rw [hchange, if_pos rfl]
      exact ih h' (lt_of_lt_of_le hlt (le_of_lt_succ hfuel))

/-- **Settled sets hold exactly what all routes pass.** -/
theorem mem_iff_passes (h : Between fixed links blocks sets)
    (hsettled : ∀ block ∈ blocks, Settled fixed links sets block) {d : ℕ} (hv : v < blocks.length) :
    d ∈ sets.getD v [] ↔ d < blocks.length ∧ PassesAt fixed links blocks v d := by
  refine ⟨fun hd => ⟨h.bound v d hd, ?_⟩, fun hd => h.above v d hv hd.1 hd.2⟩
  have hsolves : Solves (fun a b => b ∈ linksAt links blocks a) (stopAt fixed links blocks)
      fun a => {x | x ∈ sets.getD a []} := by
    intro a x hx
    have ha : a < blocks.length := by
      rw [← h.length]
      by_contra hout
      rw [Set.mem_ofPred_eq, getD_eq_default _ _ (not_lt.mp hout)] at hx
      exact not_mem_nil hx
    obtain ⟨block, hblock⟩ : ∃ block, blocks[a]? = some block :=
      ⟨blocks[a], getElem?_eq_getElem ha⟩
    have hmem := mem_of_getElem? hblock
    have hid := hlinked.ids a block hblock
    have hlinks := (hlinked.linksAt hmem).2
    rw [hid] at hlinks
    rcases hsettled block hmem with hfixed | hsame
    · rw [hid] at hfixed
      rw [Set.mem_ofPred_eq, h.fixed a ha hfixed] at hx
      exact .inl (mem_singleton.mp hx)
    · rw [hid] at hsame
      rw [Set.mem_ofPred_eq, ← hsame, mem_nextSet h.sorted] at hx
      rcases hx with rfl | ⟨hne, hall⟩
      · exact .inl rfl
      · by_cases hfixed : fixed a = true
        · refine .inl ?_
          have hx : x ∈ sets.getD a [] := by
            rw [← hsame, mem_nextSet h.sorted]
            exact .inr ⟨hne, hall⟩
          rw [h.fixed a ha hfixed] at hx
          exact mem_singleton.mp hx
        · refine .inr ⟨fun hstop => ?_, fun b hb => hall b (hlinks ▸ hb)⟩
          rcases hstop with hstop | hstop
          · exact hfixed hstop
          · exact hne (hlinks ▸ hstop)
  exact hsolves.passes hd

theorem between_start {single : BasicBlock → Prop} [DecidablePred single]
    (hstop : ∀ block ∈ blocks, single block → fixed block.id = true ∨ links block = [])
    (hfixed : ∀ block ∈ blocks, fixed block.id = true → single block) :
    Between fixed links blocks (blocks.map fun block =>
      if single block then [block.id] else allBlockIds blocks.length) := by
  set sets := blocks.map fun block =>
    if single block then [block.id] else allBlockIds blocks.length with hsets
  have hget : ∀ (v : ℕ) (block : BasicBlock), blocks[v]? = some block →
      sets.getD v [] = if single block then [block.id] else allBlockIds blocks.length := by
    intro v block hv
    rw [getD_eq_getElem?_getD, hsets, getElem?_map, hv]
    rfl
  have hnone : ∀ v : ℕ, blocks[v]? = none → sets.getD v [] = [] := by
    intro v hv
    rw [getD_eq_getElem?_getD, hsets, getElem?_map, hv]
    rfl
  have hblock : ∀ v : ℕ, v < blocks.length → ∃ block, blocks[v]? = some block :=
    fun v hv => ⟨blocks[v], getElem?_eq_getElem hv⟩
  have hsorted : ∀ v : ℕ, (sets.getD v []).Pairwise (· < ·) := by
    intro v
    cases hv : blocks[v]? with
    | none =>
      rw [hnone v hv]
      exact .nil
    | some block =>
      rw [hget v block hv]
      split_ifs
      · exact pairwise_singleton _ _
      · exact pairwise_lt_range
  have hbound : ∀ v : ℕ, ∀ d ∈ sets.getD v [], d < blocks.length := by
    intro v d hd
    cases hv : blocks[v]? with
    | none =>
      rw [hnone v hv] at hd
      nomatch hd
    | some block =>
      rw [hget v block hv] at hd
      split_ifs at hd
      · rw [mem_singleton.mp hd]
        exact (hlinked.linksAt (mem_of_getElem? hv)).1
      · exact mem_range.mp hd
  refine ⟨length_map _, hsorted, hbound, fun v d hv hd hpasses => ?_,
    fun v hv hfree d hd => ?_, fun v hv hfix => ?_⟩
  · obtain ⟨block, hv⟩ := hblock v hv
    have hmem := mem_of_getElem? hv
    have hid := hlinked.ids v block hv
    rw [hget v block hv]
    split_ifs with hsingle
    · -- routes stop at the block
      have hlinks := (hlinked.linksAt hmem).2
      rw [hid] at hlinks
      have hstops : stopAt fixed links blocks v := by
        rcases hstop block hmem hsingle with h | h
        · exact .inl (hid ▸ h)
        · exact .inr (hlinks.trans h)
      rw [hpasses.of_stop hstops, hid]
      exact mem_singleton_self _
    · exact mem_range.mpr hd
  · have hv' := hv
    obtain ⟨block, hv⟩ := hblock v hv
    have hmem := mem_of_getElem? hv
    have hid := hlinked.ids v block hv
    have hlinks := (hlinked.linksAt hmem).2
    rw [hid] at hlinks
    rw [hget v block hv]
    rw [mem_nextSet hsorted, hlinks] at hd
    split_ifs with hsingle
    · rcases hd with rfl | ⟨hne, -⟩
      · rw [hid]
        exact mem_singleton_self _
      · rcases hstop block hmem hsingle with h | h
        · exact absurd (hid ▸ h) (by simp [hfree])
        · exact absurd h hne
    · refine mem_range.mpr ?_
      rcases hd with rfl | ⟨hne, hall⟩
      · exact hv'
      · obtain ⟨link, rest, hcons⟩ := exists_cons_of_ne_nil hne
        exact hbound link d (hall link (hcons ▸ .head _))
  · obtain ⟨block, hv⟩ := hblock v hv
    have hid := hlinked.ids v block hv
    have hsingle := hfixed block (mem_of_getElem? hv) (hid ▸ hfix)
    rw [hget v block hv, if_pos hsingle, hid]

end

/-- **The analysis.** The loop comes to an end, and its sets hold exactly what all routes
pass. -/
theorem refineLoop_exact (fixed : ℕ → Bool) (links : BasicBlock → List ℕ)
    (single : BasicBlock → Prop) [DecidablePred single] (hlinked : Linked links blocks)
    (hstop : ∀ block ∈ blocks, single block → fixed block.id = true ∨ links block = [])
    (hfixed : ∀ block ∈ blocks, fixed block.id = true → single block) :
    ∃ bound, ∀ fuel, bound ≤ fuel →
      ∃ sets, refineLoop fixed links blocks fuel (blocks.map fun block =>
          if single block then [block.id] else allBlockIds blocks.length) = some sets ∧
        (∀ v, (sets.getD v []).Pairwise (· < ·)) ∧ ∀ v < blocks.length, ∀ d,
          d ∈ sets.getD v [] ↔ d < blocks.length ∧ PassesAt fixed links blocks v d := by
  have hstart := between_start hlinked hstop hfixed
  refine ⟨measure (blocks.map fun block =>
    if single block then [block.id] else allBlockIds blocks.length) + 1, fun fuel hfuel => ?_⟩
  obtain ⟨sets, hloop, hbetween, hsettled⟩ :=
    refineLoop_spec hlinked hstart (lt_of_succ_le hfuel)
  exact ⟨sets, hloop, hbetween.sorted, fun v hv d => mem_iff_passes hlinked hbetween hsettled hv⟩

end Refine

end MagnusPS5.Shader.CFG
