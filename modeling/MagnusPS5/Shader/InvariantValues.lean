/-
What `EquivalentValue` and `ResolveInvariantPhi` say about the executions of a program.

A program is a graph of values (`graph`) in which an instruction is a function of its
opcode, its attributes and its arguments. The pairs that `EquivalentValue` has visited
when it answers yes are a bisimulation, and the phis that `ResolveInvariantPhi` has
expanded when it returns are a web over the value that it returns.
-/
import MagnusPS5.Shader.ValueProgram

namespace MagnusPS5.Shader

open Lib List Value Program

/-- What a value uses. -/
def Value.toArg : Value → Arg ℕ Value
  | .inst id => .ref id
  | value => .const value

namespace ValueProgram

variable {μ : Type*}

variable (P : ValueProgram μ)

/-- The values of a program. -/
def graph : ValueGraph ℕ Value (ValueOpcode × Attributes μ) where
  toFlow := P.flow
  node i :=
    match (P.insts i).opcode with
    | .phi => .phi ((P.insts i).phi_blocks.zip ((P.insts i).args.map Value.toArg))
    | .identity => .copy (P.instArg i 0).toArg
    | opcode => .op (opcode, P.attributes i) ((P.insts i).args.map Value.toArg)

/-- A program in static single assignment form whose instructions have all their arguments. -/
structure ValidSsa (P : ValueProgram μ) : Prop where
  graph : P.graph.Valid
  no_empty : ∀ i, .empty ∉ (P.insts i).args
  identity_arg : ∀ i, (P.insts i).opcode = .identity → (P.insts i).args ≠ []
  phi_length : ∀ i, (P.insts i).opcode = .phi →
    (P.insts i).phi_blocks.length = (P.insts i).args.length

variable {P : ValueProgram μ} {left right value : Value} {i j : ℕ}

theorem graph_node_phi (h : (P.insts i).opcode = .phi) :
    P.graph.node i = .phi ((P.insts i).phi_blocks.zip ((P.insts i).args.map toArg)) := by
  simp [graph, h]

theorem graph_node_identity (h : (P.insts i).opcode = .identity) :
    P.graph.node i = .copy (P.instArg i 0).toArg := by
  simp [graph, h]

theorem graph_node_op (hphi : (P.insts i).opcode ≠ .phi)
    (hidentity : (P.insts i).opcode ≠ .identity) :
    P.graph.node i =
      .op ((P.insts i).opcode, P.attributes i) ((P.insts i).args.map toArg) := by
  unfold graph
  dsimp only
  split
  · exact absurd ‹_› hphi
  · exact absurd ‹_› hidentity
  · rfl

theorem copies_resolveIn (fuel : ℕ) (value : Value) :
    P.graph.Copies value.toArg (P.resolveIn fuel value).toArg := by
  induction fuel generalizing value with
  | zero => exact .refl _
  | succ fuel ih =>
    cases value with
    | inst id =>
      simp only [resolveIn]
      split
      · exact .step (graph_node_identity ‹_›) (ih _)
      · exact .refl _
    | _ => exact .refl _

theorem copies_resolve (value : Value) : P.graph.Copies value.toArg (P.resolve value).toArg :=
  copies_resolveIn _ value

/-! ## The pairs visited -/

/-- The values resolve to the same, or to a pair visited. -/
def Visits (visited : List (ℕ × ℕ)) (left right : Value) : Prop :=
  P.resolve left = P.resolve right ∨
    ∃ i j, P.resolve left = .inst i ∧ P.resolve right = .inst j ∧ (i, j) ∈ visited

/-- Two instructions do the same to arguments that are visited. -/
structure Justified (P : ValueProgram μ) (visited : List (ℕ × ℕ)) (pair : ℕ × ℕ) : Prop where
  opcode : (P.insts pair.1).opcode = (P.insts pair.2).opcode
  attributes : P.attributes pair.1 = P.attributes pair.2
  length : (P.insts pair.1).args.length = (P.insts pair.2).args.length
  blocks : (P.insts pair.1).opcode = .phi → ∀ index < (P.insts pair.1).args.length,
    (P.insts pair.1).phi_blocks.getD index 0 = (P.insts pair.2).phi_blocks.getD index 0
  args : ∀ index < (P.insts pair.1).args.length,
    P.Visits visited (P.instArg pair.1 index) (P.instArg pair.2 index)

variable {visited visited' : List (ℕ × ℕ)}

theorem Visits.mono (hsub : visited ⊆ visited') (h : P.Visits visited left right) :
    P.Visits visited' left right := by
  rcases h with heq | ⟨i, j, hi, hj, hmem⟩
  · exact .inl heq
  · exact .inr ⟨i, j, hi, hj, hsub hmem⟩

variable {pair : ℕ × ℕ} {fuel phi : ℕ}

theorem Justified.mono (hsub : visited ⊆ visited') (h : P.Justified visited pair) :
    P.Justified visited' pair :=
  { h with args := fun index hindex => (h.args index hindex).mono hsub }

theorem Visits.related (h : P.Visits visited left right) :
    P.graph.Related (fun i j => (i, j) ∈ visited) left.toArg right.toArg := by
  refine ⟨_, _, copies_resolve left, copies_resolve right, ?_⟩
  rcases h with heq | ⟨i, j, hi, hj, hmem⟩
  · exact .inl (by rw [heq])
  · exact .inr ⟨i, j, by rw [hi, toArg], by rw [hj, toArg], hmem⟩

theorem instArg_eq {index : ℕ} (h : index < (P.insts i).args.length) :
    P.instArg i index = (P.insts i).args[index] := by
  rw [instArg, getD_eq_getElem _ _ h]

theorem Justified.args_related (h : P.Justified visited pair) :
    List.Forall₂ (P.graph.Related fun i j => (i, j) ∈ visited)
      ((P.insts pair.1).args.map toArg) ((P.insts pair.2).args.map toArg) := by
  refine forall₂_iff_get.mpr ⟨by simp [h.length], fun index h1 h2 => ?_⟩
  rw [length_map] at h1 h2
  have hvisits := (h.args index h1).related
  rw [instArg_eq h1, instArg_eq h2] at hvisits
  simpa using hvisits

theorem Justified.matches (hvalid : P.ValidSsa) (h : P.Justified visited pair) :
    P.graph.Matches (fun i j => (i, j) ∈ visited) (P.graph.node pair.1)
      (P.graph.node pair.2) := by
  by_cases hphi : (P.insts pair.1).opcode = .phi
  · have hphi' : (P.insts pair.2).opcode = .phi := h.opcode ▸ hphi
    rw [graph_node_phi hphi, graph_node_phi hphi']
    refine .phi (forall₂_iff_get.mpr ⟨?_, fun index h1 h2 => ?_⟩)
    · simp [hvalid.phi_length _ hphi, hvalid.phi_length _ hphi', h.length]
    · simp only [length_zip, length_map, hvalid.phi_length _ hphi,
        hvalid.phi_length _ hphi', Nat.min_self] at h1 h2
      have hargs := (forall₂_iff_get.mp h.args_related).2 index (by simpa using h1)
        (by simpa using h2)
      have hblocks := h.blocks hphi index h1
      rw [getD_eq_getElem _ _ (hvalid.phi_length _ hphi ▸ h1),
        getD_eq_getElem _ _ (hvalid.phi_length _ hphi' ▸ h2)] at hblocks
      simp only [get_eq_getElem, getElem_map, getElem_zip] at hargs ⊢
      exact ⟨hblocks, hargs⟩
  · have hphi' : (P.insts pair.2).opcode ≠ .phi := h.opcode ▸ hphi
    by_cases hidentity : (P.insts pair.1).opcode = .identity
    · have hidentity' : (P.insts pair.2).opcode = .identity := h.opcode ▸ hidentity
      rw [graph_node_identity hidentity, graph_node_identity hidentity']
      exact .copy (h.args 0 (length_pos_iff.mpr (hvalid.identity_arg _ hidentity))).related
    · rw [graph_node_op hphi hidentity, graph_node_op hphi' (h.opcode ▸ hidentity), h.opcode,
        h.attributes]
      exact .op h.args_related

variable [DecidableEq μ]

theorem sameAttributes_eq (hopcode : (P.insts i).opcode = (P.insts j).opcode)
    (h : P.sameAttributes i j = true) : P.attributes i = P.attributes j := by
  unfold sameAttributes at h
  unfold attributes
  rw [← hopcode]
  split at h
  next hread =>
    rw [if_pos hread, if_pos hread]
    split at h
    next li ri hi hj =>
      rw [hi, hj, of_decide_eq_true h]
    · nomatch h
  next hread =>
    rw [if_neg hread, if_neg hread, of_decide_eq_true h]

/-- What `EquivalentValue` leaves behind when it answers yes. -/
structure Sound (P : ValueProgram μ) (visited visited' : List (ℕ × ℕ)) : Prop where
  subset : visited ⊆ visited'
  justified : ∀ pair ∈ visited', pair ∈ visited ∨ P.Justified visited' pair

omit [DecidableEq μ] in
theorem Sound.trans {visited1 : List (ℕ × ℕ)} (h : P.Sound visited visited1)
    (h' : P.Sound visited1 visited') : P.Sound visited visited' := by
  refine ⟨fun pair hp => h'.subset (h.subset hp), fun pair hp => ?_⟩
  rcases h'.justified pair hp with hp | hp
  · exact (h.justified pair hp).imp_right (.mono h'.subset)
  · exact .inr hp

omit [DecidableEq μ] in
theorem equivalentArgs_sound
    {equivalent : Value → Value → List (ℕ × ℕ) → Option (Bool × List (ℕ × ℕ))}
    (hequivalent : ∀ left right visited visited',
      equivalent left right visited = some (true, visited') →
        P.Sound visited visited' ∧ P.Visits visited' left right)
    {pairs : List (Bool × Value × Value)}
    (h : equivalentArgs equivalent pairs visited = some (true, visited')) :
    P.Sound visited visited' ∧
      ∀ pair ∈ pairs, pair.1 = true ∧ P.Visits visited' pair.2.1 pair.2.2 := by
  induction pairs generalizing visited with
  | nil =>
    cases h
    exact ⟨⟨fun _ hp => hp, fun _ hp => .inl hp⟩, by simp⟩
  | cons pair rest ih =>
    simp only [equivalentArgs] at h
    split at h
    next hblock =>
      split at h
      next visited1 heq =>
        obtain ⟨h1, h2⟩ := hequivalent _ _ _ _ heq
        obtain ⟨h3, h4⟩ := ih h
        exact ⟨h1.trans h3, forall_mem_cons.mpr ⟨⟨hblock, h2.mono h3.subset⟩, h4⟩⟩
      next hne =>
        exact absurd h (hne _)
    · cases h

theorem equivalentValueIn_sound
    (h : P.equivalentValueIn fuel left right visited = some (true, visited')) :
    P.Sound visited visited' ∧ P.Visits visited' left right := by
  induction fuel generalizing left right visited visited' with
  | zero => nomatch h
  | succ fuel ih =>
    unfold equivalentValueIn at h
    split at h
    · cases h
      exact ⟨⟨fun _ hp => hp, fun _ hp => .inl hp⟩, .inl ‹_›⟩
    split at h
    next lhs rhs hlhs hrhs =>
      split at h
      · nomatch h
      rename_i hsame
      split at h
      · cases h
        exact ⟨⟨fun _ hp => hp, fun _ hp => .inl hp⟩, .inr ⟨lhs, rhs, hlhs, hrhs, ‹_›⟩⟩
      split at h
      next hattributes =>
        obtain ⟨h1, h2⟩ := equivalentArgs_sound (fun _ _ _ _ => ih) h
        simp only [not_or, ne_eq, not_not] at hsame
        have hmem : (lhs, rhs) ∈ visited' := h1.subset (by simp)
        have hpair (index : ℕ) (hindex : index < (P.insts lhs).args.length) :=
          h2 _ (mem_map_of_mem (mem_range.mpr hindex))
        have hjustified : P.Justified visited' (lhs, rhs) :=
          { opcode := hsame.2.1
            attributes := sameAttributes_eq hsame.2.1 hattributes
            length := hsame.2.2
            blocks := fun hphi index hindex => of_decide_eq_true (hpair index hindex).1 hphi
            args := fun index hindex => (hpair index hindex).2 }
        refine ⟨⟨fun pair hp => h1.subset (mem_append_left _ hp), fun pair hp => ?_⟩,
          .inr ⟨lhs, rhs, hlhs, hrhs, hmem⟩⟩
        rcases h1.justified pair hp with hp | hp
        · rcases mem_append.mp hp with hp | hp
          · exact .inl hp
          · exact .inr (mem_singleton.mp hp ▸ hjustified)
        · exact .inr hp
      · nomatch h
    · nomatch h

/-- **Equivalent values are copies of similar ones.** -/
theorem equivalentValue_related (hvalid : P.ValidSsa) (h : P.equivalentValue left right = true) :
    P.graph.Related P.graph.Similar left.toArg right.toArg := by
  unfold equivalentValue at h
  cases heq : P.equivalentValueIn (P.ids.length * P.ids.length + 1) left right [] with
  | none =>
    rw [heq] at h
    nomatch h
  | some result =>
    obtain ⟨answer, visited⟩ := result
    rw [heq] at h
    obtain rfl : answer = true := h
    obtain ⟨h1, h2⟩ := equivalentValueIn_sound heq
    refine h2.related.mono fun i j hij => ⟨fun i j => (i, j) ∈ visited, fun i j hij => ?_, hij⟩
    rcases h1.justified (i, j) hij with hp | hp
    · nomatch hp
    · exact hp.matches hvalid

/-! ## The phis expanded -/

/-- An operand has been expanded, or is the invariant. -/
def Handled (phis : List ℕ) (invariant value : Value) : Prop :=
  match P.phiOf (P.resolve value) with
  | some phi => phi ∈ phis
  | none => invariant ≠ .empty ∧ P.graph.Related P.graph.Similar value.toArg invariant.toArg

/-- Phis whose operands have been looked at. -/
def Expanded (phis : List ℕ) (looked : Value → Prop) : Prop :=
  ∀ q ∈ phis, (P.insts q).opcode = .phi ∧ ∀ arg ∈ (P.insts q).args, looked arg

omit [DecidableEq μ] in
theorem phiOf_some (h : P.phiOf value = some phi) :
    value = .inst phi ∧ (P.insts phi).opcode = .phi := by
  unfold phiOf at h
  split at h
  · obtain ⟨hopcode, h⟩ := Option.ite_none_right_eq_some.mp h
    cases h
    exact ⟨rfl, hopcode⟩
  · nomatch h

variable {phis phis' : List ℕ} {invariant : Value}

omit [DecidableEq μ] in
theorem Handled.mono (hsub : phis ⊆ phis') (h : P.Handled phis invariant value) :
    P.Handled phis' invariant value := by
  unfold Handled at h ⊢
  split at h
  · exact hsub h
  · exact h

omit [DecidableEq μ] in
theorem Handled.of_empty (h : P.Handled phis .empty value) : P.Handled phis invariant value := by
  unfold Handled at h ⊢
  split at h
  · exact h
  · exact absurd rfl h.1

omit [DecidableEq μ] in
theorem Expanded.imp {looked looked' : Value → Prop} (h : P.Expanded phis looked)
    (himp : ∀ arg, looked arg → looked' arg) : P.Expanded phis looked' :=
  fun q hq => ⟨(h q hq).1, fun arg harg => himp arg ((h q hq).2 arg harg)⟩

omit [DecidableEq μ] in
theorem resolveIn_ne_empty (hvalid : P.ValidSsa) (fuel : ℕ) (hvalue : value ≠ .empty) :
    P.resolveIn fuel value ≠ .empty := by
  induction fuel generalizing value with
  | zero => exact hvalue
  | succ fuel ih =>
    cases value with
    | inst id =>
      simp only [resolveIn]
      split
      next hidentity =>
        refine ih fun hempty => hvalid.no_empty id ?_
        have hpos := length_pos_iff.mpr (hvalid.identity_arg id hidentity)
        rw [← hempty, instArg_eq hpos]
        exact getElem_mem hpos
      · exact hvalue
    | _ => exact hvalue

/-- **The phis expanded when the loop ends**, with the invariant that it ends with. -/
theorem resolveInvariantIn_sound (hvalid : P.ValidSsa) {pending : List Value}
    (hpending : ∀ arg ∈ pending, arg ≠ .empty)
    (hexpanded : P.Expanded phis fun arg => arg ∈ pending ∨ P.Handled phis invariant arg)
    (h : P.resolveInvariantIn fuel pending phis invariant = some value) (hvalue : value ≠ .empty) :
    ∃ phis', phis ⊆ phis' ∧ (∀ arg ∈ pending, P.Handled phis' value arg) ∧
      (invariant = .empty ∨ invariant = value) ∧ P.Expanded phis' (P.Handled phis' value) := by
  induction fuel generalizing pending phis invariant with
  | zero =>
    cases pending with
    | nil =>
      cases h
      exact ⟨phis, fun _ hq => hq, by simp, .inr rfl,
        hexpanded.imp fun arg harg => harg.resolve_left not_mem_nil⟩
    | cons arg pending => nomatch h
  | succ fuel ih =>
    cases pending with
    | nil =>
      cases h
      exact ⟨phis, fun _ hq => hq, by simp, .inr rfl,
        hexpanded.imp fun arg harg => harg.resolve_left not_mem_nil⟩
    | cons arg pending =>
      obtain ⟨harg, hpending⟩ := forall_mem_cons.mp hpending
      -- the argument leaves the worklist when it is handled
      have hleave {invariant' : Value} (hhandled : P.Handled phis invariant' arg)
          (hkeep : ∀ a, P.Handled phis invariant a → P.Handled phis invariant' a) :
          P.Expanded phis fun a => a ∈ pending ∨ P.Handled phis invariant' a := by
        refine hexpanded.imp fun a ha => ?_
        rcases ha with ha | ha
        · rcases mem_cons.mp ha with rfl | ha
          · exact .inr hhandled
          · exact .inl ha
        · exact .inr (hkeep a ha)
      unfold resolveInvariantIn at h
      split at h
      next phi hphi =>
        have hhandled {phis : List ℕ} {invariant : Value} (hmem : phi ∈ phis) :
            P.Handled phis invariant arg := by
          unfold Handled
          rw [hphi]
          exact hmem
        split at h
        next hmem =>
          obtain ⟨phis', h1, h2, h3, h4⟩ :=
            ih hpending (hleave (hhandled hmem) fun _ ha => ha) h
          exact ⟨phis', h1, forall_mem_cons.mpr ⟨hhandled (h1 hmem), h2⟩, h3, h4⟩
        · have hexpanded' : P.Expanded (phi :: phis) fun a =>
              a ∈ (P.insts phi).args.reverse ++ pending ∨ P.Handled (phi :: phis) invariant a := by
            intro q hq
            rcases mem_cons.mp hq with rfl | hq
            · exact ⟨(phiOf_some hphi).2, fun a ha =>
                .inl (mem_append_left _ (mem_reverse.mpr ha))⟩
            · refine ⟨(hexpanded q hq).1, fun a ha => ?_⟩
              rcases (hexpanded q hq).2 a ha with ha | ha
              · rcases mem_cons.mp ha with rfl | ha
                · exact .inr (hhandled mem_cons_self)
                · exact .inl (mem_append_right _ ha)
              · exact .inr (ha.mono (subset_cons_self _ _))
          have hpending' (a : Value) (ha : a ∈ (P.insts phi).args.reverse ++ pending) :
              a ≠ .empty := by
            rcases mem_append.mp ha with ha | ha
            · rintro rfl
              exact hvalid.no_empty phi (mem_reverse.mp ha)
            · exact hpending a ha
          obtain ⟨phis', h1, h2, h3, h4⟩ := ih hpending' hexpanded' h
          exact ⟨phis', fun q hq => h1 (.tail _ hq),
            forall_mem_cons.mpr ⟨hhandled (h1 mem_cons_self),
              fun a ha => h2 a (mem_append_right _ ha)⟩, h3, h4⟩
      next hleaf =>
        have hhandled {phis : List ℕ} {invariant : Value} (hne : invariant ≠ .empty)
            (hrel : P.graph.Related P.graph.Similar arg.toArg invariant.toArg) :
            P.Handled phis invariant arg := by
          unfold Handled
          rw [hleaf]
          exact ⟨hne, hrel⟩
        split at h
        next hempty =>
          have hne := resolveIn_ne_empty hvalid P.blocks.flatten.length harg
          have hrel := (copies_resolve (P := P) arg).related (R := P.graph.Similar)
          obtain ⟨phis', h1, h2, h3, h4⟩ := ih hpending
            (hleave (hhandled hne hrel) fun _ ha => (hempty ▸ ha).of_empty) h
          obtain rfl := h3.resolve_left hne
          exact ⟨phis', h1, forall_mem_cons.mpr ⟨hhandled hvalue hrel, h2⟩, .inl hempty, h4⟩
        next hne =>
          split at h
          next hequivalent =>
            have hrel := (equivalentValue_related hvalid hequivalent).symm.of_copies
              (copies_resolve arg)
            obtain ⟨phis', h1, h2, h3, h4⟩ :=
              ih hpending (hleave (hhandled hne hrel) fun _ ha => ha) h
            obtain rfl := h3.resolve_left hne
            exact ⟨phis', h1, forall_mem_cons.mpr ⟨hhandled hne hrel, h2⟩, .inr rfl, h4⟩
          · cases h
            exact absurd rfl hvalue

omit [DecidableEq μ] in
theorem resolve_phi (h : (P.insts phi).opcode = .phi) : P.resolve (.inst phi) = .inst phi := by
  unfold resolve
  cases P.blocks.flatten.length with
  | zero => rfl
  | succ fuel => simp [resolveIn, h]

/-- **The phis behind a value that `ResolveInvariantPhi` returns are a web over it.** -/
theorem resolveInvariantPhi_web (hvalid : P.ValidSsa) (hphi : P.resolve value = .inst phi)
    (hopcode : (P.insts phi).opcode = .phi) (hne : P.resolveInvariantPhi value ≠ .empty) :
    ∃ W : ℕ → Prop, W phi ∧ P.graph.Web (P.resolveInvariantPhi value).toArg W := by
  have hroot : P.phiOf (P.resolve value) = some phi := by simp [phiOf, hphi, hopcode]
  cases hresult : P.resolveInvariantIn (P.argCount P.ids + 1) [P.resolve value] [] .empty with
  | none => exact absurd (by simp [resolveInvariantPhi, hroot, hresult]) hne
  | some x =>
    have hx : P.resolveInvariantPhi value = x := by simp [resolveInvariantPhi, hroot, hresult]
    rw [hx] at hne ⊢
    have hstart : P.Expanded [] fun arg => arg ∈ [P.resolve value] ∨ P.Handled [] .empty arg :=
      by rintro q ⟨⟩
    obtain ⟨phis, _, hroots, _, hexpanded⟩ :=
      resolveInvariantIn_sound hvalid (by simp [hphi]) hstart hresult hne
    have hmem : phi ∈ phis := by
      have hhandled := hroots _ mem_cons_self
      have hself : P.phiOf (P.resolve (P.resolve value)) = some phi := by
        rw [hphi, resolve_phi hopcode, ← hphi]
        exact hroot
      unfold Handled at hhandled
      rw [hself] at hhandled
      exact hhandled
    refine ⟨(· ∈ phis), hmem, fun q hq => ?_⟩
    obtain ⟨hq, hargs⟩ := hexpanded q hq
    refine ⟨_, graph_node_phi hq, fun p a ha => ?_⟩
    obtain ⟨arg, harg, rfl⟩ := mem_map.mp (of_mem_zip ha).2
    have hhandled := hargs arg harg
    unfold Handled at hhandled
    split at hhandled
    next q' hq' =>
      have hcopies := copies_resolve (P := P) arg
      rw [(phiOf_some hq').1] at hcopies
      exact .inl ⟨q', hcopies, hhandled⟩
    · exact .inr hhandled.2

/-- **Invariant values are what they are taken for.** In every execution of a program in static
single assignment form, equivalent values are equal wherever both are available; and a `Phi` is
the value of the expression that `ResolveInvariantPhi` returns for it, each time the `Phi` is
evaluated with the phis of this expression available. -/
theorem invariant_values_sound {V : Type*} (P : ValueProgram μ) (hvalid : P.ValidSsa)
    (M : Meaning Value (ValueOpcode × Attributes μ) V) :
    (∀ left right, P.equivalentValue left right = true → ∀ s, P.graph.Execution M s →
      P.graph.ArgAvail left.toArg s.block s.position →
      P.graph.ArgAvail right.toArg s.block s.position →
      ValueGraph.read M s.env left.toArg = ValueGraph.read M s.env right.toArg) ∧
    ∀ value phi, P.resolve value = .inst phi → (P.insts phi).opcode = .phi →
      P.resolveInvariantPhi value ≠ .empty → ∀ s, P.graph.Execution M s →
      P.graph.At phi s.block s.position →
      (∀ r, P.graph.HasPhi (P.resolveInvariantPhi value).toArg r →
        P.graph.Avail r s.block (s.position + 1)) →
      ∀ v, P.graph.Evaluates M (P.graph.execute M s phi).env
        (P.resolveInvariantPhi value).toArg v ↔ v = (P.graph.execute M s phi).env phi := by
  refine ⟨fun left right hequivalent s hs hleft hright => ?_, ?_⟩
  · exact (equivalentValue_related hvalid hequivalent).read_eq hvalid.graph hs
      (hs.agrees hvalid.graph) hleft hright
  · intro value phi hphi hopcode hne s hs hat hphis v
    obtain ⟨W, hW, hweb⟩ := resolveInvariantPhi_web hvalid hphi hopcode hne
    have hself : P.graph.Avail phi s.block (s.position + 1) := by
      intro trace hpath
      exact hpath.passed hat
    have heval := hweb.evaluates hvalid.graph (hs.step hat) hW hself hphis
    exact ⟨fun h => h.unique heval, fun h => h ▸ heval⟩

/-! ## A phi of another path -/

/-- Two blocks that are reached from the same two blocks, each with a `Phi` and its complement,
and a `Phi` where they meet again, in a loop. -/
def meeting : ValueProgram Unit where
  insts n := [
    { opcode := .phi, args := [.u32 1, .u32 2], phi_blocks := [1, 2] },
    { opcode := .bitwiseNot32, args := [.inst 0] },
    { opcode := .phi, args := [.u32 1, .u32 2], phi_blocks := [1, 2] },
    { opcode := .bitwiseNot32, args := [.inst 2] },
    { opcode := .phi, args := [.inst 1, .inst 3], phi_blocks := [3, 4] }].getD n
      { opcode := .other 2 .void, args := [] }
  blocks := [[], [], [], [0, 1], [2, 3], [4]]
  predecessors b := [[], [0, 5], [0, 5], [1, 2], [1, 2], [3, 4]].getD b []
  flags n := if n = 0 ∨ n = 2 ∨ n = 4 then 64 else 0
  memory_info := []

theorem meeting_at {b k : ℕ} (h : meeting.graph.At i b k) :
    i = 0 ∧ b = 3 ∧ k = 0 ∨ i = 1 ∧ b = 3 ∧ k = 1 ∨ i = 2 ∧ b = 4 ∧ k = 0 ∨
      i = 3 ∧ b = 4 ∧ k = 1 ∨ i = 4 ∧ b = 5 ∧ k = 0 := by
  match b, k, h with
  | 0, _, h | 1, _, h | 2, _, h => nomatch h
  | 3, 0, h | 3, 1, h | 4, 0, h | 4, 1, h | 5, 0, h =>
    cases h
    simp
  | 3, k + 2, h | 4, k + 2, h | 5, k + 1, h => nomatch h
  | b + 6, _, h => nomatch h

theorem meeting_valid : meeting.ValidSsa where
  graph :=
    { unique := by
        intro i b k b' k' h h'
        have h1 := meeting_at h
        have h2 := meeting_at h'
        omega
      uses := by
        intro i y hy b k hat trace hpath
        rcases meeting_at hat with ⟨rfl, rfl, rfl⟩ | ⟨rfl, rfl, rfl⟩ | ⟨rfl, rfl, rfl⟩ |
          ⟨rfl, rfl, rfl⟩ | ⟨rfl, rfl, rfl⟩
        · nomatch hy
        · have huses : y = 0 := by
            cases hy with
            | op h => simpa [meeting, toArg] using h
          exact huses ▸ hpath.passed rfl
        · nomatch hy
        · have huses : y = 2 := by
            cases hy with
            | op h => simpa [meeting, toArg] using h
          exact huses ▸ hpath.passed rfl
        · nomatch hy
      phi_entry := by
        intro i b k operands hat hnode
        have h := meeting_at hat
        omega
      phi_blocks := by
        intro i b k operands hat hnode p
        rcases meeting_at hat with ⟨rfl, rfl, rfl⟩ | ⟨rfl, rfl, rfl⟩ | ⟨rfl, rfl, rfl⟩ |
          ⟨rfl, rfl, rfl⟩ | ⟨rfl, rfl, rfl⟩
        · cases hnode
          exact .rfl
        · nomatch hnode
        · cases hnode
          exact .rfl
        · nomatch hnode
        · cases hnode
          exact .rfl
      phi_uses := by
        intro i b k operands hat hnode p y hmem trace hpath
        rcases meeting_at hat with ⟨rfl, rfl, rfl⟩ | ⟨rfl, rfl, rfl⟩ | ⟨rfl, rfl, rfl⟩ |
          ⟨rfl, rfl, rfl⟩ | ⟨rfl, rfl, rfl⟩
        · cases hnode
          simp [meeting, toArg] at hmem
        · nomatch hnode
        · cases hnode
          simp [meeting, toArg] at hmem
        · nomatch hnode
        · cases hnode
          have hcases : p = 3 ∧ y = 1 ∨ p = 4 ∧ y = 3 := by
            simpa [meeting, toArg] using hmem
          rcases hcases with ⟨rfl, rfl⟩ | ⟨rfl, rfl⟩
          · exact hpath.passed rfl
          · exact hpath.passed rfl }
  no_empty := by
    intro i
    match i with
    | 0 | 1 | 2 | 3 | 4 => decide
    | i + 5 => exact not_mem_nil
  identity_arg := by
    intro i hi
    match i, hi with
    | 0, hi | 1, hi | 2, hi | 3, hi | 4, hi => nomatch hi
    | i + 5, hi => nomatch hi
  phi_length := by
    intro i hi
    match i, hi with
    | 0, _ | 2, _ | 4, _ => rfl
    | 1, hi | 3, hi | i + 5, hi => nomatch hi

/-- Numbers, and an operation that adds ten. -/
def plusTen : Meaning Value (ValueOpcode × Attributes Unit) ℕ where
  const
    | .u32 value => value.toNat
    | _ => 0
  op _ args := args.sum + 10

theorem invariant_values_sound_meeting :
    meeting.equivalentValue (.inst 1) (.inst 3) = true ∧
    ∀ s, meeting.graph.Execution plusTen s → meeting.graph.ArgAvail (.ref 1) s.block s.position →
      meeting.graph.ArgAvail (.ref 3) s.block s.position → s.env 1 = s.env 3 := by
  refine ⟨by decide +kernel, ?_⟩
  exact (invariant_values_sound meeting meeting_valid plusTen).1 (.inst 1) (.inst 3)
    (by decide +kernel)

/-- The execution that goes through one block first and through the other one then. -/
def meetingState : ValueGraph.State ℕ ℕ :=
  let G := meeting.graph
  let enter := ValueGraph.enter (ι := ℕ) (V := ℕ)
  let first := G.execute plusTen (G.execute plusTen
    (enter (enter (ValueGraph.start fun _ => 0) 1) 4) 2) 3
  let again := G.execute plusTen (enter first 5) 4
  enter (G.execute plusTen (G.execute plusTen (enter (enter again 2) 3) 0) 1) 5

theorem meetingState_execution : meeting.graph.Execution plusTen meetingState := by
  refine .jump (.step (.step (.jump (.jump (.step (.jump (.step (.step (.jump (.jump
    (.start _) rfl ?_) rfl ?_) rfl) rfl) rfl ?_) rfl) rfl ?_) rfl ?_) rfl) rfl) rfl ?_
  all_goals exact mem_of_elem_eq_true rfl

/-- The `Phi` has the complement of the second block in one turn of the loop; the expression
that is returned for it names the `Phi` of the first one. -/
theorem resolveInvariantPhi_stale :
    meeting.ValidSsa ∧ (meeting.insts 4).opcode = .phi ∧
      meeting.resolveInvariantPhi (.inst 4) = .inst 3 ∧
      meeting.graph.Execution plusTen meetingState ∧
      meeting.graph.At 4 meetingState.block meetingState.position ∧
      meeting.graph.Evaluates plusTen (meeting.graph.execute plusTen meetingState 4).env
        (.ref 3) 11 ∧
      (meeting.graph.execute plusTen meetingState 4).env 4 = 12 := by
  refine ⟨meeting_valid, rfl, by decide +kernel, meetingState_execution, rfl, ?_, by decide +kernel⟩
  have hphi : meeting.graph.Evaluates plusTen
      (meeting.graph.execute plusTen meetingState 4).env (.ref 2) 1 := .phi rfl
  have hnode : meeting.graph.node 3 = .op (.bitwiseNot32, .flags 0) [.ref 2] := rfl
  have hlength : [1].length = [(.ref 2 : Arg ℕ Value)].length := rfl
  refine .op hnode hlength fun k a v ha hv => ?_
  match k, ha, hv with
  | 0, ha, hv =>
    cases ha
    cases hv
    exact hphi
  | k + 1, ha, _ => exact nomatch ha

end ValueProgram

end MagnusPS5.Shader
