/-
Which values of a `ValueGraph` are equal.

A `Bisimulation` pairs items with the same label whose arguments are paired again; phis
are paired if they are reached from the same blocks. Nothing else justifies a pair, so
two phis of a loop may be paired because their operands would be.
-/
import MagnusPS5.Lib.ValueGraph
import Mathlib.Data.List.Forall2

namespace MagnusPS5.Lib.ValueGraph

open Function (update)
open List Function

variable {ι κ α V : Type*}

/-! ## Bisimulations -/

variable (G : ValueGraph ι κ α)

/-- Arguments that are copies of the same, or of paired items. -/
def Related (R : ι → ι → Prop) (a b : Arg ι κ) : Prop :=
  ∃ a' b', G.Copies a a' ∧ G.Copies b b' ∧
    (a' = b' ∨ ∃ i j, a' = .ref i ∧ b' = .ref j ∧ R i j)

/-- Items with the same label, whose arguments are related. -/
inductive Matches (G : ValueGraph ι κ α) (R : ι → ι → Prop) : Node ι κ α → Node ι κ α → Prop
  | op {label : α} {args args' : List (Arg ι κ)} (h : List.Forall₂ (G.Related R) args args') :
      Matches G R (.op label args) (.op label args')
  | copy {a b : Arg ι κ} (h : G.Related R a b) : Matches G R (.copy a) (.copy b)
  | phi {operands operands' : List (ℕ × Arg ι κ)}
      (h : List.Forall₂ (fun o o' => o.1 = o'.1 ∧ G.Related R o.2 o'.2) operands operands') :
      Matches G R (.phi operands) (.phi operands')

/-- A relation that pairs matching items alone. -/
def Bisimulation (R : ι → ι → Prop) : Prop :=
  ∀ i j, R i j → G.Matches R (G.node i) (G.node j)

/-- Items that some bisimulation pairs. -/
def Similar (i j : ι) : Prop := ∃ R, G.Bisimulation R ∧ R i j

variable {G : ValueGraph ι κ α} {M : Meaning κ α V} {s : State ι V} {i j : ι} {a b : Arg ι κ}
  {R R' : ι → ι → Prop}

theorem Related.mono (hR : ∀ i j, R i j → R' i j) (h : G.Related R a b) : G.Related R' a b := by
  obtain ⟨a', b', ha, hb, heq | ⟨i, j, hi, hj, hij⟩⟩ := h
  · exact ⟨a', b', ha, hb, .inl heq⟩
  · exact ⟨a', b', ha, hb, .inr ⟨i, j, hi, hj, hR i j hij⟩⟩

theorem Related.flip (h : G.Related R a b) : G.Related (flip R) b a := by
  obtain ⟨a', b', ha, hb, heq | ⟨i, j, hi, hj, hij⟩⟩ := h
  · exact ⟨b', a', hb, ha, .inl heq.symm⟩
  · exact ⟨b', a', hb, ha, .inr ⟨j, i, hj, hi, hij⟩⟩

theorem Matches.mono (hR : ∀ i j, R i j → R' i j) {n n' : Node ι κ α} (h : G.Matches R n n') :
    G.Matches R' n n' := by
  cases h with
  | op h => exact .op (h.imp fun _ _ => .mono hR)
  | copy h => exact .copy (h.mono hR)
  | phi h => exact .phi (h.imp fun _ _ h => ⟨h.1, h.2.mono hR⟩)

theorem Matches.flip {n n' : Node ι κ α} (h : G.Matches R n n') : G.Matches (flip R) n' n := by
  cases h with
  | op h => exact .op (h.flip.imp fun _ _ => .flip)
  | copy h => exact .copy h.flip
  | phi h => exact .phi (h.flip.imp fun _ _ h => ⟨h.1.symm, h.2.flip⟩)

theorem Similar.matches (h : G.Similar i j) : G.Matches G.Similar (G.node i) (G.node j) := by
  obtain ⟨R, hR, hij⟩ := h
  exact (hR i j hij).mono fun i j hij => ⟨R, hR, hij⟩

theorem Similar.symm (h : G.Similar i j) : G.Similar j i := by
  obtain ⟨R, hR, hij⟩ := h
  exact ⟨flip R, fun i j hij => (hR j i hij).flip, hij⟩

theorem Related.symm (h : G.Related G.Similar a b) : G.Related G.Similar b a :=
  h.flip.mono fun _ _ hij => .symm hij

theorem Copies.related (h : G.Copies a b) : G.Related R a b :=
  ⟨b, b, h, .refl b, .inl rfl⟩

theorem Copies.trans {c : Arg ι κ} (h : G.Copies a b) (h' : G.Copies b c) : G.Copies a c := by
  induction h with
  | refl a => exact h'
  | step hnode h ih => exact .step hnode (ih h')

theorem Related.of_copies {c : Arg ι κ} (h : G.Copies a b) (hrel : G.Related R b c) :
    G.Related R a c := by
  obtain ⟨b', c', hb, hc, heq⟩ := hrel
  exact ⟨b', c', h.trans hb, hc, heq⟩

variable {operands operands' : List (ℕ × Arg ι κ)}

section

variable (h : List.Forall₂ (fun o o' => o.1 = o'.1 ∧ G.Related R o.2 o'.2) operands operands')

include h

theorem operand_related {p : ℕ} (ha : operand operands p = some a) :
    ∃ b, operand operands' p = some b ∧ G.Related R a b := by
  induction h with
  | nil => nomatch ha
  | @cons o o' operands operands' hhead htail ih =>
    by_cases hp : o.1 = p
    · refine ⟨o'.2, ?_, ?_⟩
      · simp [operand, ← hhead.1, hp]
      · simp only [operand, find?_cons, hp, decide_true, Option.map_some, Option.some.injEq] at ha
        exact ha ▸ hhead.2
    · have hp' : ¬ o'.1 = p := hhead.1 ▸ hp
      simp only [operand, find?_cons, hp, hp', decide_false] at ha ⊢
      exact ih ha

theorem map_fst_eq : operands.map Prod.fst = operands'.map Prod.fst := by
  induction h with
  | nil => rfl
  | cons hhead htail ih => rw [map_cons, map_cons, hhead.1, ih]

end

/-! ## Equal values -/

/-- A phi of another block that is reached from the same blocks is not available where a phi
is: whoever comes to its block first could have come here instead. -/
theorem Valid.not_avail_phi (hvalid : G.Valid) {b k b' k' : ℕ} {trace : List ι}
    (hi : G.At i b k) (hnode : G.node i = .phi operands)
    (hj : G.At j b' k') (hnode' : G.node j = .phi operands')
    (hblocks : operands.map Prod.fst = operands'.map Prod.fst) (hne : b ≠ b')
    (hpath : G.Path b k trace) : ¬ G.Avail j b k := by
  intro havail
  have hstart : G.Avail j b 0 := by
    refine havail.to_start hpath.position_le fun k1 hk1 => ?_
    exact hne (hvalid.unique _ _ _ _ _ hk1 hj).1
  obtain ⟨l, b1, k1, trace1, rfl, hat, hfirst, hnot⟩ :=
    hpath.first (κ := (· = j)) ⟨j, havail trace hpath, rfl⟩
  obtain ⟨rfl, rfl⟩ := hvalid.unique _ _ _ _ _ hat hj
  obtain ⟨p, trace2, hend, hedge, hsuffix⟩ :=
    hfirst.arrival (hvalid.phi_entry _ _ _ _ hj hnode')
  have hedge' : G.edge p b := by
    rw [← hvalid.phi_blocks _ _ _ _ hi hnode, hblocks]
    exact (hvalid.phi_blocks _ _ _ _ hj hnode' p).mpr hedge
  exact hnot l (hsuffix.subset (hstart _ (.jump hend hedge'))) rfl

variable [DecidableEq ι]

/-- Similar items that are available are equal. -/
def Agrees (s : State ι V) : Prop :=
  ∀ i j, G.Similar i j → G.Avail i s.block s.position → G.Avail j s.block s.position →
    s.env i = s.env j

section

variable (hvalid : G.Valid)

include hvalid

section

variable (hs : G.Execution M s)

include hs

theorem Related.read_eq (hagrees : G.Agrees s)
    (h : G.Related G.Similar a b) (ha : G.ArgAvail a s.block s.position)
    (hb : G.ArgAvail b s.block s.position) : read M s.env a = read M s.env b := by
  obtain ⟨a', b', hca, hcb, heq | ⟨i, j, rfl, rfl, hij⟩⟩ := h
  · rw [hca.read_eq hvalid hs ha, hcb.read_eq hvalid hs hb, heq]
  · rw [hca.read_eq hvalid hs ha, hcb.read_eq hvalid hs hb]
    exact hagrees i j hij (hca.avail hvalid ha i rfl) (hcb.avail hvalid hb j rfl)

theorem Related.map_read_eq (hagrees : G.Agrees s)
    {args args' : List (Arg ι κ)} (h : List.Forall₂ (G.Related G.Similar) args args')
    (ha : ∀ a ∈ args, G.ArgAvail a s.block s.position)
    (hb : ∀ b ∈ args', G.ArgAvail b s.block s.position) :
    args.map (read M s.env) = args'.map (read M s.env) := by
  induction h with
  | nil => rfl
  | @cons a b args args' hhead htail ih =>
    rw [map_cons, map_cons, hhead.read_eq hvalid hs hagrees
      (ha a mem_cons_self) (hb b mem_cons_self)]
    rw [ih (fun a h => ha a (.tail _ h)) fun b h => hb b (.tail _ h)]

theorem Similar.phi_eq (horigin : G.Origin M G.Agrees s) (hi : G.At i s.block s.position)
    (hj : G.Avail j s.block s.position)
    (hm : G.node i = .phi operands) (hn : G.node j = .phi operands')
    (h : List.Forall₂ (fun o o' => o.1 = o'.1 ∧ G.Related G.Similar o.2 o'.2) operands operands') :
    G.result M s i = s.env j := by
  obtain ⟨p, a, s0, hpred, ha, hs0, hagrees, hblock, hposition, henv, hedge, havail⟩ :=
    horigin.phi_operand hvalid hi hm
  obtain ⟨b, hb, hab⟩ := operand_related h ha
  obtain ⟨b', k', _, hatj, _, _⟩ := hs.path.before (hj _ hs.path)
  have hsame : s.block = b' := by
    by_contra hne
    exact hvalid.not_avail_phi hi hm hatj hn (map_fst_eq h) hne hs.path hj
  subst hsame
  -- the other phi has been executed in this block, and has read its operand where this one does
  have hlt : k' < s.position := hvalid.unique.lt_of_avail hatj hj hs.path
  rw [result_phi hm hpred ha, hs.phi_executed hatj hlt hn hpred hb, ← henv]
  rw [← hposition, ← hblock] at havail
  refine hab.read_eq hvalid hs0 hagrees havail ?_
  rintro y rfl
  rw [hposition, hblock]
  exact hvalid.phi_uses _ _ _ _ hatj hn p y (operand_mem hb)

theorem Similar.result_eq (hagrees : G.Agrees s)
    (horigin : G.Origin M G.Agrees s) (hi : G.At i s.block s.position)
    (hj : G.Avail j s.block s.position) (h : G.Similar i j) : G.result M s i = s.env j := by
  have huses (y : ι) (hy : Uses (G.node i) y) : G.Avail y s.block s.position :=
    hvalid.uses i y hy _ _ hi
  have huses' (y : ι) (hy : Uses (G.node j) y) : G.Avail y s.block s.position :=
    hj.of_dom (hvalid.uses j y hy)
  have hmatch := h.matches
  generalize hm : G.node i = n, hn : G.node j = n' at hmatch huses huses'
  cases hmatch with
  | @op label args args' hargs =>
    have hread : args.map (read M s.env) = args'.map (read M s.env) :=
      Related.map_read_eq hvalid hs hagrees hargs
        (fun a ha y hy => huses y (.op (hy ▸ ha))) fun b hb y hy => huses' y (.op (hy ▸ hb))
    have hsettled : s.env j = M.op label (args'.map (read M s.env)) :=
      hs.settled hvalid hj (by simp [value, hn])
    rw [hsettled, ← hread]
    simp [result, hm]
  | @copy a b hab =>
    have hsettled : s.env j = read M s.env b := hs.settled hvalid hj (by simp [value, hn])
    have hread : read M s.env a = read M s.env b :=
      hab.read_eq hvalid hs hagrees (fun y hy => huses y (hy ▸ .copy))
        fun y hy => huses' y (hy ▸ .copy)
    rw [hsettled, ← hread]
    simp [result, hm]
  | phi hoperands => exact Similar.phi_eq hvalid hs horigin hi hj hm hn hoperands

end

/-- **Similar items are equal wherever both are available.** -/
theorem Execution.agrees (h : G.Execution M s) : G.Agrees s := by
  refine (h.rec_entry (Q := G.Agrees) ?_ ?_ ?_).1
  · exact fun env i j hij hi => absurd hi not_avail_start
  · intro s l hs hl hagrees horigin i j hij hi hj
    by_cases hil : i = l
    · subst hil
      by_cases hji : j = i
      · rw [hji]
      · have hj' := hj.of_step hl hji
        have henv := hij.result_eq hvalid hs hagrees horigin hl hj'
        simpa [execute, update_of_ne hji] using henv
    · have hi' := hi.of_step hl hil
      by_cases hjl : j = l
      · subst hjl
        have henv := hij.symm.result_eq hvalid hs hagrees horigin hl hi'
        simpa [execute, update_of_ne hil] using henv.symm
      · have henv := hagrees i j hij hi' (hj.of_step hl hjl)
        simpa [execute, update_of_ne hil, update_of_ne hjl] using henv
  · intro s c hs hend hedge hagrees i j hij hi hj
    refine hagrees i j hij ?_ ?_
    · rw [hend]
      exact hi.jump hedge
    · rw [hend]
      exact hj.jump hedge

end

end MagnusPS5.Lib.ValueGraph
