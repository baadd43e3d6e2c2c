/-
The expression that a value of a `ValueGraph` stands for.

An expression is evaluated through operations and copies down to constants and phis; a phi
has what it had when it was last executed. An available item is the value of its
expression (`Execution.evaluates`). A `Web` is a set of phis each of whose operands is a
phi of the set or similar to one expression.
-/
import MagnusPS5.Lib.ValueEquality

namespace MagnusPS5.Lib.ValueGraph

open Function (update)
open List Function

variable {ι κ α V : Type*}

/-- What an expression is where the items have the values of `env`. -/
inductive Evaluates (G : ValueGraph ι κ α) (M : Meaning κ α V) (env : ι → V) : Arg ι κ → V → Prop
  | const (c : κ) : Evaluates G M env (.const c) (M.const c)
  | phi {i : ι} {operands : List (ℕ × Arg ι κ)} (hnode : G.node i = .phi operands) :
      Evaluates G M env (.ref i) (env i)
  | copy {i : ι} {a : Arg ι κ} {v : V} (hnode : G.node i = .copy a) (h : Evaluates G M env a v) :
      Evaluates G M env (.ref i) v
  | op {i : ι} {label : α} {args : List (Arg ι κ)} {vs : List V}
      (hnode : G.node i = .op label args) (hlength : vs.length = args.length)
      (h : ∀ (k : ℕ) (a : Arg ι κ) (v : V), args[k]? = some a → vs[k]? = some v →
        Evaluates G M env a v) :
      Evaluates G M env (.ref i) (M.op label vs)

/-- The expression contains the phi. -/
inductive HasPhi (G : ValueGraph ι κ α) : Arg ι κ → ι → Prop
  | phi {i : ι} {operands : List (ℕ × Arg ι κ)} (hnode : G.node i = .phi operands) :
      HasPhi G (.ref i) i
  | copy {i r : ι} {a : Arg ι κ} (hnode : G.node i = .copy a) (h : HasPhi G a r) :
      HasPhi G (.ref i) r
  | op {i r : ι} {label : α} {args : List (Arg ι κ)} {a : Arg ι κ}
      (hnode : G.node i = .op label args) (ha : a ∈ args) (h : HasPhi G a r) :
      HasPhi G (.ref i) r

variable {G : ValueGraph ι κ α} {M : Meaning κ α V} {s : State ι V} {i j r : ι}
  {a b x : Arg ι κ} {env env' : ι → V} {v v' : V}

/-! ## Expressions -/

theorem HasPhi.is_phi (h : G.HasPhi a r) : ∃ operands, G.node r = .phi operands := by
  induction h with
  | phi hnode => exact ⟨_, hnode⟩
  | copy _ _ ih | op _ _ _ ih => exact ih

/-- A user of an operand is dominated by the phi in it. -/
theorem HasPhi.dom_of_uses (h : G.HasPhi a r) (hdom : ∀ y, a = .ref y → r = y ∨ G.Dom r y)
    (huses : ∀ z, a = .ref z → G.Dom z i) : G.Dom r i := by
  cases a with
  | const c => cases h
  | ref z =>
    rcases hdom z rfl with rfl | hdom
    · exact huses r rfl
    · exact hdom.trans (huses z rfl)

theorem HasPhi.dom (hvalid : G.Valid) (h : G.HasPhi a r) : ∀ y, a = .ref y → r = y ∨ G.Dom r y := by
  induction h with
  | phi hnode =>
    rintro y hy
    cases hy
    exact .inl rfl
  | @copy i r a hnode h ih =>
    rintro y hy
    cases hy
    exact .inr (h.dom_of_uses ih fun z hz => hvalid.uses i z (by rw [hnode, hz]; exact .copy))
  | @op i r label args a hnode ha h ih =>
    rintro y hy
    cases hy
    exact .inr (h.dom_of_uses ih fun z hz => hvalid.uses i z (by rw [hnode]; exact .op (hz ▸ ha)))

theorem HasPhi.avail (hvalid : G.Valid) (h : G.HasPhi a r) {b k : ℕ} (ha : G.ArgAvail a b k) :
    G.Avail r b k := by
  cases a with
  | const c => cases h
  | ref y =>
    rcases h.dom hvalid y rfl with rfl | hdom
    · exact ha r rfl
    · exact (ha y rfl).of_dom hdom

theorem Evaluates.congr (h : G.Evaluates M env a v)
    (henv : ∀ r, G.HasPhi a r → env r = env' r) : G.Evaluates M env' a v := by
  induction h with
  | const c => exact .const c
  | phi hnode =>
    rw [henv _ (.phi hnode)]
    exact .phi hnode
  | copy hnode h ih => exact .copy hnode (ih fun r hr => henv r (.copy hnode hr))
  | op hnode hlength h ih =>
    refine .op hnode hlength fun k a v ha hv => ih k a v ha hv fun r hr => ?_
    exact henv r (.op hnode (mem_of_getElem? ha) hr)

theorem Evaluates.unique (h : G.Evaluates M env a v) (h' : G.Evaluates M env a v') : v = v' := by
  induction h generalizing v' with
  | const c =>
    cases h'
    rfl
  | phi hnode =>
    cases h' with
    | phi => rfl
    | copy hnode' | op hnode' => nomatch hnode.symm.trans hnode'
  | copy hnode h ih =>
    cases h' with
    | copy hnode' h' =>
      cases hnode.symm.trans hnode'
      exact ih h'
    | phi hnode' | op hnode' => nomatch hnode.symm.trans hnode'
  | @op i label args vs hnode hlength h ih =>
    cases h' with
    | phi hnode' | copy hnode' => nomatch hnode.symm.trans hnode'
    | @op _ _ _ vs' hnode' hlength' h' =>
      cases hnode.symm.trans hnode'
      have hvs : vs = vs' := by
        refine ext_getElem (hlength.trans hlength'.symm) fun k hk hk' => ?_
        have harg : args[k]? = some args[k] := getElem?_eq_getElem (hlength ▸ hk)
        exact ih k _ _ harg (getElem?_eq_getElem hk) (h' k _ _ harg (getElem?_eq_getElem hk'))
      rw [hvs]

theorem Copies.evaluates (h : G.Copies a b) : G.Evaluates M env a v ↔ G.Evaluates M env b v := by
  induction h with
  | refl a => exact .rfl
  | step hnode h ih =>
    rw [← ih]
    constructor
    · intro heval
      cases heval with
      | copy hnode' heval =>
        cases hnode.symm.trans hnode'
        exact heval
      | phi hnode' | op hnode' => nomatch hnode.symm.trans hnode'
    · exact .copy hnode

theorem Copies.hasPhi (h : G.Copies a b) : G.HasPhi a r ↔ G.HasPhi b r := by
  induction h with
  | refl a => exact .rfl
  | step hnode h ih =>
    rw [← ih]
    constructor
    · intro hphi
      cases hphi with
      | copy hnode' hphi =>
        cases hnode.symm.trans hnode'
        exact hphi
      | phi hnode' | op hnode' => nomatch hnode.symm.trans hnode'
    · exact .copy hnode

/-! ## Related expressions -/

theorem exists_paired {β γ : Type*} {R : β → γ → Prop} {l : List β} {l' : List γ} {k : ℕ} {y : γ}
    (h : List.Forall₂ R l l') (hy : l'[k]? = some y) : ∃ x, l[k]? = some x ∧ R x y := by
  obtain ⟨hk', rfl⟩ := List.getElem?_eq_some_iff.mp hy
  have hk : k < l.length := h.length_eq ▸ hk'
  exact ⟨l[k], getElem?_eq_getElem hk, h.get hk hk'⟩

theorem HasPhi.related (h : G.HasPhi x r) (hrel : G.Related G.Similar a x) :
    ∃ r', G.HasPhi a r' ∧ (r' = r ∨ G.Similar r' r) := by
  induction h generalizing a with
  | @phi r operands hnode =>
    obtain ⟨a', x', ha, hx, heq | ⟨i, j, rfl, rfl, hij⟩⟩ := hrel
    · subst heq
      exact ⟨r, ha.hasPhi.mpr (hx.hasPhi.mp (.phi hnode)), .inl rfl⟩
    · cases hx with
      | step hcopy => nomatch hnode.symm.trans hcopy
      | refl =>
        have hmatch := hij.matches
        generalize hm : G.node i = n at hmatch
        rw [hnode] at hmatch
        cases hmatch
        exact ⟨i, ha.hasPhi.mpr (.phi hm), .inr hij⟩
  | @copy j r x hnode h ih =>
    obtain ⟨a', x', ha, hx, heq⟩ := hrel
    cases hx with
    | step hcopy hx =>
      cases hnode.symm.trans hcopy
      exact ih ⟨a', x', ha, hx, heq⟩
    | refl =>
      rcases heq with rfl | ⟨i, j, rfl, hj, hij⟩
      · exact ⟨r, ha.hasPhi.mpr (.copy hnode h), .inl rfl⟩
      · cases hj
        have hmatch := hij.matches
        generalize hm : G.node i = n at hmatch
        rw [hnode] at hmatch
        cases hmatch with
        | copy hab =>
          obtain ⟨r', hr', hsimilar⟩ := ih hab
          exact ⟨r', ha.hasPhi.mpr (.copy hm hr'), hsimilar⟩
  | @op j r label args x hnode hx h ih =>
    obtain ⟨a', x', ha, hcopies, heq⟩ := hrel
    cases hcopies with
    | step hcopy => nomatch hnode.symm.trans hcopy
    | refl =>
      rcases heq with rfl | ⟨i, j, rfl, hj, hij⟩
      · exact ⟨r, ha.hasPhi.mpr (.op hnode hx h), .inl rfl⟩
      · cases hj
        have hmatch := hij.matches
        generalize hm : G.node i = n at hmatch
        rw [hnode] at hmatch
        cases hmatch with
        | @op _ args' _ hargs =>
          obtain ⟨k, hk⟩ := mem_iff_getElem?.mp hx
          obtain ⟨b, hb, hrel⟩ := exists_paired hargs hk
          obtain ⟨r', hr', hsimilar⟩ := ih hrel
          exact ⟨r', ha.hasPhi.mpr (.op hm (mem_of_getElem? hb) hr'), hsimilar⟩

theorem Evaluates.related (hagrees : G.Agrees s) (h : G.Evaluates M s.env a v)
    (hrel : G.Related G.Similar a b) (ha : ∀ r, G.HasPhi a r → G.Avail r s.block s.position)
    (hb : ∀ r, G.HasPhi b r → G.Avail r s.block s.position) : G.Evaluates M s.env b v := by
  induction h generalizing b with
  | const c =>
    obtain ⟨a', b', hca, hcb, heq⟩ := hrel
    cases hca with
    | refl =>
      rcases heq with rfl | ⟨i, j, hi, hj, hij⟩
      · exact hcb.evaluates.mpr (.const c)
      · cases hi
  | @phi i operands hnode =>
    obtain ⟨a', b', hca, hcb, heq⟩ := hrel
    cases hca with
    | step hcopy => nomatch hnode.symm.trans hcopy
    | refl =>
      rcases heq with rfl | ⟨i, j, hi, rfl, hij⟩
      · exact hcb.evaluates.mpr (.phi hnode)
      · cases hi
        have hmatch := hij.matches
        generalize hm : G.node j = n at hmatch
        rw [hnode] at hmatch
        cases hmatch
        have havail : G.Avail j s.block s.position := hb j (hcb.hasPhi.mpr (.phi hm))
        rw [hagrees i j hij (ha i (.phi hnode)) havail]
        exact hcb.evaluates.mpr (.phi hm)
  | @copy i a v hnode h ih =>
    obtain ⟨a', b', hca, hcb, heq⟩ := hrel
    have ha' (r : ι) (hr : G.HasPhi a r) := ha r (.copy hnode hr)
    cases hca with
    | step hcopy hca =>
      cases hnode.symm.trans hcopy
      exact ih ⟨a', b', hca, hcb, heq⟩ ha' hb
    | refl =>
      rcases heq with rfl | ⟨i, j, hi, rfl, hij⟩
      · exact hcb.evaluates.mpr (.copy hnode h)
      · cases hi
        have hmatch := hij.matches
        generalize hm : G.node j = n at hmatch
        rw [hnode] at hmatch
        cases hmatch with
        | copy hab =>
          exact hcb.evaluates.mpr (.copy hm (ih hab ha' fun r hr =>
            hb r (hcb.hasPhi.mpr (.copy hm hr))))
  | @op i label args vs hnode hlength h ih =>
    obtain ⟨a', b', hca, hcb, heq⟩ := hrel
    cases hca with
    | step hcopy => nomatch hnode.symm.trans hcopy
    | refl =>
      rcases heq with rfl | ⟨i, j, hi, rfl, hij⟩
      · exact hcb.evaluates.mpr (.op hnode hlength h)
      · cases hi
        have hmatch := hij.matches
        generalize hm : G.node j = n at hmatch
        rw [hnode] at hmatch
        cases hmatch with
        | @op _ _ args' hargs =>
          refine hcb.evaluates.mpr (.op hm (hlength.trans hargs.length_eq) ?_)
          intro k b v hk hv
          obtain ⟨a, hka, hab⟩ := exists_paired hargs hk
          exact ih k a v hka hv hab
            (fun r hr => ha r (.op hnode (mem_of_getElem? hka) hr))
            fun r hr => hb r (hcb.hasPhi.mpr (.op hm (mem_of_getElem? hk) hr))

section Execution

variable [DecidableEq ι]

section

variable (hvalid : G.Valid) (hs : G.Execution M s) (hj : G.At j s.block s.position)

include hvalid hs hj

/-- What is executed does not change an expression that is available behind it, unless the
expression is the item itself. -/
theorem Execution.evaluates_step (hi : G.Avail i s.block (s.position + 1)) (hij : i ≠ j)
    (h : G.Evaluates M s.env (.ref i) v) : G.Evaluates M (G.execute M s j).env (.ref i) v := by
  refine h.congr fun r hr => (update_of_ne ?_ _ _).symm
  rintro rfl
  rcases hr.dom hvalid i rfl with rfl | hdom
  · exact hij rfl
  · exact hs.not_uses_after hvalid hj hi hdom

theorem Execution.evaluates_uses (huses : ∀ y, a = .ref y → G.Dom y j)
    (h : G.Evaluates M s.env a v) : G.Evaluates M (G.execute M s j).env a v := by
  refine h.congr fun r hr => (update_of_ne ?_ _ _).symm
  rintro rfl
  cases a with
  | const c => cases hr
  | ref y =>
    have hself : G.Dom r r := by
      rcases hr.dom hvalid y rfl with rfl | hdom
      · exact huses r rfl
      · exact hdom.trans (huses y rfl)
    exact hvalid.unique.not_dom_self hj hs.path hself

end

/-- **An available item has the value of its expression.** -/
theorem Execution.evaluates (hvalid : G.Valid) (h : G.Execution M s)
    (ha : G.ArgAvail a s.block s.position) : G.Evaluates M s.env a (read M s.env a) := by
  induction h generalizing a with
  | start env =>
    cases a with
    | const c => exact .const c
    | ref i => exact absurd (ha i rfl) not_avail_start
  | @step s j hs hj ih =>
    cases a with
    | const c => exact .const c
    | ref i =>
      have hi := ha i rfl
      by_cases hij : i = j
      · subst hij
        have hused {b : Arg ι κ} (hb : ∀ y, b = .ref y → Uses (G.node i) y) :
            G.Evaluates M (G.execute M s i).env b (read M s.env b) :=
          hs.evaluates_uses hvalid hj (fun y hy => hvalid.uses i y (hb y hy))
            (ih fun y hy => hvalid.uses i y (hb y hy) _ _ hj)
        have hread : read M (G.execute M s i).env (.ref i) = G.result M s i :=
          update_self _ _ _
        rw [hread]
        cases hnode : G.node i with
        | phi operands =>
          rw [← hread]
          exact .phi hnode
        | copy b =>
          have hresult : G.result M s i = read M s.env b := by simp [result, hnode]
          rw [hresult]
          exact .copy hnode (hused fun y hy => by rw [hnode, hy]; exact .copy)
        | op label args =>
          have hresult : G.result M s i = M.op label (args.map (read M s.env)) := by
            simp [result, hnode]
          rw [hresult]
          refine .op hnode (length_map _) fun k b v hb hv => ?_
          rw [getElem?_map, hb, Option.map_some, Option.some.injEq] at hv
          rw [← hv]
          refine hused fun y hy => ?_
          rw [hnode]
          exact .op (hy ▸ mem_of_getElem? hb)
      · have hvalue : read M (G.execute M s j).env (.ref i) = s.env i :=
          update_of_ne hij _ _
        rw [hvalue]
        refine hs.evaluates_step hvalid hj hi hij (ih ?_)
        rintro y ⟨rfl⟩
        exact hi.of_step hj hij
  | jump hs hend hedge ih =>
    refine ih fun y hy => ?_
    rw [hend]
    exact (ha y hy).jump hedge

end Execution

/-! ## Webs -/

/-- Phis each of whose operands is one of them or similar to the expression. -/
def Web (G : ValueGraph ι κ α) (x : Arg ι κ) (W : ι → Prop) : Prop :=
  ∀ q, W q → ∃ operands, G.node q = .phi operands ∧ ∀ p a, (p, a) ∈ operands →
    (∃ q', G.Copies a (.ref q') ∧ W q') ∨ G.Related G.Similar a x

variable {W : ι → Prop}

/-- A phi that stands for a phi of the expression. -/
def StandsFor (G : ValueGraph ι κ α) (r' r : ι) : Prop := r' = r ∨ G.Similar r' r

theorem StandsFor.blocks (h : G.StandsFor i r) {operands : List (ℕ × Arg ι κ)}
    (hr : G.node r = .phi operands) :
    ∃ operands', G.node i = .phi operands' ∧ operands'.map Prod.fst = operands.map Prod.fst := by
  rcases h with rfl | hsimilar
  · exact ⟨operands, hr, rfl⟩
  · have hmatch := hsimilar.matches
    generalize hm : G.node i = n at hmatch
    rw [hr] at hmatch
    cases hmatch with
    | phi hoperands => exact ⟨_, rfl, map_fst_eq hoperands⟩

variable (hweb : G.Web x W) (hvalid : G.Valid)

include hweb hvalid

/-- On every way to the block of a phi of the web, a phi has been passed that stands for a phi of
the expression. -/
theorem Web.passed (hr : G.HasPhi x r) {c k p : ℕ}
    {trace : List ι} {q : ι} (hq : W q) (hat : G.At q c k) (hedge : G.edge p c)
    (hpath : G.Path p (G.code p).length trace) : ∃ r' ∈ trace, G.StandsFor r' r := by
  induction hn : trace.length using Nat.strongRecOn generalizing trace q c k p with
  | _ n ih =>
    obtain ⟨operands, hnode, hoperands⟩ := hweb q hq
    obtain ⟨a, ha⟩ := exists_operand ((hvalid.phi_blocks _ _ _ _ hat hnode p).mpr hedge)
    have havail : G.ArgAvail a p (G.code p).length := by
      rintro y rfl
      exact hvalid.phi_uses _ _ _ _ hat hnode p y (operand_mem ha)
    rcases hoperands p a (operand_mem ha) with ⟨q', hcopies, hq'⟩ | hrel
    · -- the value comes from another phi of the web, which was passed before
      have hmem : q' ∈ trace := hcopies.avail hvalid havail q' rfl trace hpath
      obtain ⟨c', k', trace', hat', hpath', hsuffix⟩ := hpath.before hmem
      obtain ⟨operands', hnode', _⟩ := hweb q' hq'
      obtain ⟨p', trace'', hend, hedge', hsuffix'⟩ :=
        hpath'.arrival (hvalid.phi_entry _ _ _ _ hat' hnode')
      have hlt : trace''.length < n := by
        have h1 := hsuffix.length_le
        have h2 := hsuffix'.length_le
        rw [length_cons] at h1
        omega
      obtain ⟨r', hr', hstands⟩ := ih trace''.length hlt hq' hat' hedge' hend rfl
      exact ⟨r', hsuffix.subset (.tail _ (hsuffix'.subset hr')), hstands⟩
    · obtain ⟨r', hr', hstands⟩ := hr.related hrel
      exact ⟨r', hr'.avail hvalid havail trace hpath, hstands⟩

/-- A block with a phi of the expression is never reached with a phi of the web in it, or
available at its start. -/
theorem Web.not_reached (hr : G.HasPhi x r) {b k k' : ℕ}
    {trace : List ι} (hat : G.At r b k) {q : ι} (hq : W q)
    (hplace : (∃ kq, G.At q b kq) ∨ G.Avail q b 0) : ¬ G.Path b k' trace := by
  intro hpath
  obtain ⟨operands, hnode⟩ := hr.is_phi
  -- whoever comes to the block has passed a phi that stands for `r`
  have hpassed (p : ℕ) (t : List ι) (hedge : G.edge p b) (hend : G.Path p (G.code p).length t) :
      ∃ r' ∈ t, G.StandsFor r' r := by
    rcases hplace with ⟨kq, hatq⟩ | havail
    · exact hweb.passed hvalid hr hq hatq hedge hend
    · obtain ⟨c, kq, t', hatq, hpath', hsuffix⟩ := hend.before (havail t (.jump hend hedge))
      obtain ⟨operands', hnode', _⟩ := hweb q hq
      obtain ⟨p', t'', hend', hedge', hsuffix'⟩ :=
        hpath'.arrival (hvalid.phi_entry _ _ _ _ hatq hnode')
      obtain ⟨r', hr', hstands⟩ := hweb.passed hvalid hr hq hatq hedge' hend'
      exact ⟨r', hsuffix.subset (.tail _ (hsuffix'.subset hr')), hstands⟩
  obtain ⟨p, t, hend, hedge, _⟩ := hpath.arrival (hvalid.phi_entry _ _ _ _ hat hnode)
  -- the first of them stands in a block that is reached from the same blocks
  obtain ⟨r', b', k1, t1, hstands, hat', hfirst, hnot⟩ := hend.first (hpassed p t hedge hend)
  obtain ⟨operands', hnode', hblocks⟩ := hstands.blocks hnode
  obtain ⟨p', t2, hend', hedge', hsuffix⟩ :=
    hfirst.arrival (hvalid.phi_entry _ _ _ _ hat' hnode')
  have hedge2 : G.edge p' b := by
    rw [← hvalid.phi_blocks _ _ _ _ hat hnode, ← hblocks]
    exact (hvalid.phi_blocks _ _ _ _ hat' hnode' p').mpr hedge'
  obtain ⟨r'', hr'', hstands'⟩ := hpassed p' t2 hedge2 hend'
  exact hnot r'' (hsuffix.subset hr'') hstands'

section Execution

variable [DecidableEq ι]

theorem Web.evaluates_result (hs : G.Execution M s) {q : ι}
    (hq : W q) (hat : G.At q s.block s.position)
    (horigin : G.Origin M (fun s => ∀ q, W q → G.Avail q s.block s.position →
      (∀ r, G.HasPhi x r → G.Avail r s.block s.position) → G.Evaluates M s.env x (s.env q)) s)
    (hphis : ∀ r, G.HasPhi x r → G.Avail r s.block (s.position + 1)) :
    G.Evaluates M (G.execute M s q).env x (G.result M s q) := by
  -- the phis of the expression stand outside the block
  have hout (r : ι) (hr : G.HasPhi x r) (k : ℕ) : ¬ G.At r s.block k := fun hatr =>
    hweb.not_reached hvalid hr hatr hq (.inl ⟨_, hat⟩) hs.path
  have hne (r : ι) (hr : G.HasPhi x r) : r ≠ q := by
    rintro rfl
    exact hout r hr _ hat
  have hstart (r : ι) (hr : G.HasPhi x r) : G.Avail r s.block 0 :=
    ((hphis r hr).of_step hat (hne r hr)).to_start hs.path.position_le (hout r hr)
  obtain ⟨operands, hnode, hoperands⟩ := hweb q hq
  obtain ⟨p, a, s0, hpred, ha, hs0, hQ, hblock, hposition, henv, hedge, havail⟩ :=
    horigin.phi_operand hvalid hat hnode
  have hphis0 (r : ι) (hr : G.HasPhi x r) : G.Avail r s0.block s0.position := by
    rw [hposition, hblock]
    exact (hstart r hr).jump hedge
  rw [← hposition, ← hblock] at havail
  -- there the operand was the expression, and nothing in it has changed since
  have heval : G.Evaluates M s0.env x (read M s0.env a) := by
    rcases hoperands p a (operand_mem ha) with ⟨q', hcopies, hq'⟩ | hrel
    · rw [hcopies.read_eq hvalid hs0 havail]
      exact hQ q' hq' (hcopies.avail hvalid havail q' rfl) hphis0
    · exact (hs0.evaluates hvalid havail).related (hs0.agrees hvalid) hrel
        (fun r hr => hr.avail hvalid havail) hphis0
  rw [result_phi hnode hpred ha, ← henv]
  refine heval.congr fun r hr => ?_
  rw [henv, ← hs.untouched (hout r hr)]
  exact (update_of_ne (hne r hr) _ _).symm

/-- **A phi of a web is the expression** wherever the phis of the expression are available. -/
theorem Web.evaluates (hs : G.Execution M s) {q : ι}
    (hq : W q) (havail : G.Avail q s.block s.position)
    (hphis : ∀ r, G.HasPhi x r → G.Avail r s.block s.position) :
    G.Evaluates M s.env x (s.env q) := by
  refine (hs.rec_entry (Q := fun s => ∀ q, W q → G.Avail q s.block s.position →
    (∀ r, G.HasPhi x r → G.Avail r s.block s.position) → G.Evaluates M s.env x (s.env q))
    ?_ ?_ ?_).1 q hq havail hphis
  · exact fun env q hq havail => absurd havail not_avail_start
  · intro s j hs hj hQ horigin q hq havail hphis
    by_cases hqj : q = j
    · subst hqj
      have hvalue : (G.execute M s q).env q = G.result M s q := update_self _ _ _
      rw [hvalue]
      exact hweb.evaluates_result hvalid hs hq hj horigin hphis
    · have havail' := havail.of_step hj hqj
      -- no phi of the expression is executed where a phi of the web is available
      have hnot (r : ι) (hr : G.HasPhi x r) : r ≠ j := by
        rintro rfl
        refine hweb.not_reached hvalid hr hj hq ?_ hs.path
        by_cases hin : ∃ kq, G.At q s.block kq
        · exact .inl hin
        · exact .inr (havail'.to_start hs.path.position_le fun k hk => hin ⟨k, hk⟩)
      have hvalue : (G.execute M s j).env q = s.env q := update_of_ne hqj _ _
      rw [hvalue]
      refine (hQ q hq havail' fun r hr => (hphis r hr).of_step hj (hnot r hr)).congr ?_
      exact fun r hr => (update_of_ne (hnot r hr) _ _).symm
  · intro s c hs hend hedge hQ q hq havail hphis
    refine hQ q hq ?_ fun r hr => ?_
    · rw [hend]
      exact havail.jump hedge
    · rw [hend]
      exact (hphis r hr).jump hedge

end Execution

end MagnusPS5.Lib.ValueGraph
