/-
The linked blocks of `BuildGraph`, and the walk over them. The walk is at the instruction of
the program counter all the time (`Related`), and the two executions run in lockstep.
-/
import MagnusPS5.Shader.ControlFlowGraphSpec

namespace MagnusPS5.Shader.CFG

open Decoder
open Lib (bind_eq_ok)
open List BasicBlock
open Option hiding or_assoc

variable {program : Decoder.Program}

/-! ## Linking -/

variable {α β : Type} {terminator : Terminator}

variable {xs : List α} {ys : List β} {R : α → β → Prop} {values : List ℕ}
  {added added' : ℕ → ℕ → Prop}

theorem mapM_forall₂ {ε : Type} {f : α → Except ε β}
    (h : xs.mapM f = .ok ys) : List.Forall₂ (fun x y => f x = .ok y) xs ys := by
  induction xs generalizing ys with
  | nil =>
    rw [mapM_nil] at h
    cases h
    exact .nil
  | cons x xs ih =>
    rw [mapM_cons] at h
    obtain ⟨y, hx, h⟩ := bind_eq_ok.mp h
    obtain ⟨tail, hxs, h⟩ := bind_eq_ok.mp h
    cases h
    exact .cons hx (ih hxs)

section

variable (h : List.Forall₂ R xs ys)

include h

theorem forall₂_getElem (j : ℕ) :
    (xs[j]? = none ∧ ys[j]? = none) ∨ ∃ x y, xs[j]? = some x ∧ ys[j]? = some y ∧ R x y := by
  induction h generalizing j with
  | nil => exact .inl ⟨rfl, rfl⟩
  | @cons x y xs ys hxy _ ih =>
    cases j with
    | zero => exact .inr ⟨x, y, rfl, rfl, hxy⟩
    | succ j =>
      rw [getElem?_cons_succ, getElem?_cons_succ]
      exact ih j

theorem forall₂_find {p : α → Bool} {q : β → Bool} (hpq : ∀ x y, R x y → p x = q y) :
    (xs.find? p = none ∧ ys.find? q = none) ∨
      ∃ x y, xs.find? p = some x ∧ ys.find? q = some y ∧ R x y := by
  induction h with
  | nil => exact .inl ⟨rfl, rfl⟩
  | @cons x y xs ys hxy _ ih =>
    cases hq : q y with
    | true =>
      have hp : p x = true := (hpq x y hxy).trans hq
      rw [find?_cons_of_pos hp, find?_cons_of_pos hq]
      exact .inr ⟨x, y, rfl, rfl, hxy⟩
    | false =>
      have hp : p x = false := (hpq x y hxy).trans hq
      rw [find?_cons_of_neg (by simp [hp]), find?_cons_of_neg (by simp [hq])]
      exact ih

theorem forall₂_zip (values : List ℕ) :
    List.Forall₂ (fun x y => x.1 = y.1 ∧ R x.2 y.2) (values.zip xs) (values.zip ys) := by
  induction h generalizing values with
  | nil =>
    rw [zip_nil_right, zip_nil_right]
    exact .nil
  | cons hxy _ ih =>
    cases values with
    | nil => exact .nil
    | cons value values => exact .cons ⟨rfl, hxy⟩ (ih values)

end

variable {value x pc id : ℕ} {blocks blocks' : List BasicBlock} {scan : Scan} {graph : Graph}
  {o : Outcome} {block : BasicBlock}

theorem mem_addUnique : x ∈ addUnique values value ↔ x ∈ values ∨ x = value := by
  unfold addUnique
  split
  next h =>
    constructor
    · exact .inl
    · rintro (hx | rfl)
      · exact hx
      · exact h
  · rw [mem_append, mem_singleton]

theorem mem_foldl_addUnique {added : List ℕ} :
    x ∈ added.foldl addUnique values ↔ x ∈ values ∨ x ∈ added := by
  induction added generalizing values with
  | nil => simp
  | cons y ys ih =>
    rw [foldl_cons, ih, mem_addUnique, mem_cons]
    tauto

/-- The blocks are the same but for predecessors that have been added. -/
def Adds (blocks blocks' : List BasicBlock) (added : ℕ → ℕ → Prop) : Prop :=
  ∀ j, (blocks[j]? = none ∧ blocks'[j]? = none) ∨
    ∃ block preds, blocks[j]? = some block ∧
      blocks'[j]? = some { block with predecessors := preds } ∧
      ∀ p, p ∈ preds ↔ p ∈ block.predecessors ∨ added j p

theorem Adds.refl (blocks : List BasicBlock) : Adds blocks blocks fun _ _ => False := by
  intro j
  cases h : blocks[j]? with
  | none => exact .inl ⟨rfl, rfl⟩
  | some block => exact .inr ⟨block, block.predecessors, rfl, rfl, fun p => by simp⟩

theorem Adds.trans {blocks'' : List BasicBlock}
    (h : Adds blocks blocks' added) (h' : Adds blocks' blocks'' added') :
    Adds blocks blocks'' fun j p => added j p ∨ added' j p := by
  intro j
  rcases h j with ⟨h1, h2⟩ | ⟨block, preds, h1, h2, hmem⟩
  · rcases h' j with ⟨_, h3⟩ | ⟨block', _, h3, _⟩
    · exact .inl ⟨h1, h3⟩
    · nomatch h2.symm.trans h3
  · rcases h' j with ⟨h3, _⟩ | ⟨block', preds', h3, h4, hmem'⟩
    · nomatch h2.symm.trans h3
    · cases h2.symm.trans h3
      refine .inr ⟨block, preds', h1, h4, fun p => ?_⟩
      rw [hmem', hmem, or_assoc]

theorem Adds.congr (h : Adds blocks blocks' added) (hiff : ∀ j p, added j p ↔ added' j p) :
    Adds blocks blocks' added' := by
  have heq : added = added' := funext fun j => funext fun p => propext (hiff j p)
  rw [← heq]
  exact h

theorem modify_adds (blocks : List BasicBlock) (succ id : ℕ) :
    Adds blocks (blocks.modify succ (addPredecessor id)) fun j p =>
      j = succ ∧ p = id := by
  intro j
  rw [getElem?_modify]
  cases h : blocks[j]? with
  | none => exact .inl ⟨rfl, rfl⟩
  | some block =>
    by_cases hj : succ = j
    · refine .inr ⟨block, addUnique block.predecessors id, rfl, ?_, fun p => ?_⟩
      · simp [hj, addPredecessor]
      · rw [mem_addUnique]
        simp [hj]
    · refine .inr ⟨block, block.predecessors, rfl, ?_, fun p => ?_⟩
      · simp [hj]
      · simp [Ne.symm hj]

theorem foldl_succ_adds (blocks : List BasicBlock) (id : ℕ) (succs : List ℕ) :
    Adds blocks (succs.foldl (fun blocks succ =>
      blocks.modify succ (addPredecessor id)) blocks) fun j p =>
      j ∈ succs ∧ p = id := by
  induction succs generalizing blocks with
  | nil => exact (Adds.refl blocks).congr fun j p => by simp
  | cons succ succs ih =>
    rw [foldl_cons]
    refine ((modify_adds blocks succ id).trans (ih _)).congr fun j p => ?_
    rw [mem_cons]
    tauto

theorem foldl_block_adds (blocks sources : List BasicBlock) :
    Adds blocks (sources.foldl (fun blocks block =>
      block.successors.foldl (fun blocks succ =>
        blocks.modify succ (addPredecessor block.id)) blocks) blocks) fun j p =>
      ∃ source ∈ sources, j ∈ source.successors ∧ p = source.id := by
  induction sources generalizing blocks with
  | nil => exact (Adds.refl blocks).congr fun j p => by simp
  | cons source sources ih =>
    rw [foldl_cons]
    refine ((foldl_succ_adds blocks source.id source.successors).trans (ih _)).congr fun j p => ?_
    simp only [mem_cons, exists_eq_or_imp]

/-- A block of the graph, and the cut block that it has come from. -/
structure LinkedBlock (program : Decoder.Program) (setpc_targets : List (ℕ × SetpcTargetInfo))
    (blocks : List BasicBlock) (block linked : BasicBlock) : Prop where
  id : linked.id = block.id
  start_pc : linked.start_pc = block.start_pc
  end_pc : linked.end_pc = block.end_pc
  inst_begin : linked.inst_begin = block.inst_begin
  inst_end : linked.inst_end = block.inst_end
  terminator : makeTerminator program setpc_targets blocks block = .ok linked.terminator
  successors : ∀ id, id ∈ linked.successors ↔ id ∈ linked.terminator.targets

variable {setpc_targets : List (ℕ × SetpcTargetInfo)}

/-- **The blocks of the graph are the cut blocks, with terminators, successors and
predecessors.** -/
theorem link_spec {linked : List BasicBlock}
    (hids : ∀ j (block : BasicBlock), blocks[j]? = some block → block.id = j)
    (hcut : ∀ block ∈ blocks, block.predecessors = [])
    (h : blocks.mapM (linkBlock program setpc_targets blocks) = .ok linked) :
    (∀ j : ℕ, (blocks[j]? = none ∧ (linkPredecessors linked)[j]? = none) ∨
      ∃ block last, blocks[j]? = some block ∧ (linkPredecessors linked)[j]? = some last ∧
        LinkedBlock program setpc_targets blocks block last) ∧
    (∀ b ∈ linkPredecessors linked, ∀ c ∈ linkPredecessors linked,
      c.id ∈ b.successors ↔ b.id ∈ c.predecessors) ∧
    ∀ c ∈ linkPredecessors linked, ∀ p ∈ c.predecessors,
      ∃ b ∈ linkPredecessors linked, b.id = p := by
  have hadds := foldl_block_adds
    (linked.map fun block => { block with successors := sortUnique block.successors })
    (linked.map fun block => { block with successors := sortUnique block.successors })
  -- each block of the graph, from the cut block over the linked one
  have hspec : ∀ j : ℕ, (blocks[j]? = none ∧ (linkPredecessors linked)[j]? = none) ∨
      ∃ block middle last, blocks[j]? = some block ∧ linked[j]? = some middle ∧
        (linkPredecessors linked)[j]? = some last ∧ middle.id = j ∧
        LinkedBlock program setpc_targets blocks block last ∧
        last.successors = sortUnique middle.successors ∧
        ∀ p, p ∈ last.predecessors ↔
          ∃ source ∈ linked, j ∈ sortUnique source.successors ∧ p = source.id := by
    intro j
    unfold linkPredecessors
    simp only [getElem?_map]
    rcases forall₂_getElem (mapM_forall₂ h) j with ⟨h1, h2⟩ | ⟨block, middle, h1, h2, hlink⟩
    · rcases hadds j with ⟨_, h3⟩ | ⟨block', _, h3, _⟩
      · exact .inl ⟨h1, by rw [h3]; rfl⟩
      · rw [getElem?_map, h2] at h3
        nomatch h3
    · rcases hadds j with ⟨h3, _⟩ | ⟨block', preds, h3, h4, hmem⟩
      · rw [getElem?_map, h2] at h3
        nomatch h3
      · rw [getElem?_map, h2] at h3
        cases h3
        unfold linkBlock at hlink
        obtain ⟨terminator, hterm, hlink⟩ := bind_eq_ok.mp hlink
        cases hlink
        refine .inr ⟨block, _, _, h1, h2, by rw [h4]; rfl, hids j block h1, ?_, rfl,
          fun p => ?_⟩
        · exact ⟨rfl, rfl, rfl, rfl, rfl, hterm, fun id => mem_sortUnique⟩
        · rw [mem_sortUnique, hmem]
          rw [hcut block (mem_of_getElem? h1)]
          simp only [not_mem_nil, false_or]
          constructor
          · rintro ⟨source, hsource, hj, rfl⟩
            obtain ⟨middle, hmiddle, rfl⟩ := mem_map.mp hsource
            exact ⟨middle, hmiddle, hj, rfl⟩
          · rintro ⟨middle, hmiddle, hj, rfl⟩
            exact ⟨_, mem_map.mpr ⟨middle, hmiddle, rfl⟩, hj, rfl⟩
  have hplace : ∀ c ∈ linkPredecessors linked, ∃ (j : ℕ) (middle : BasicBlock),
      linked[j]? = some middle ∧ c.id = j ∧ c.successors = sortUnique middle.successors ∧
      ∀ p, p ∈ c.predecessors ↔
        ∃ source ∈ linked, j ∈ sortUnique source.successors ∧ p = source.id := by
    intro c hc
    obtain ⟨j, hj⟩ := mem_iff_getElem?.mp hc
    rcases hspec j with ⟨_, h2⟩ | ⟨block, middle, last, h1, h2, h3, hid, hlinked, hsucc, hmem⟩
    · nomatch hj.symm.trans h2
    · cases hj.symm.trans h3
      exact ⟨j, middle, h2, hlinked.id.trans (hids j block h1), hsucc, hmem⟩
  have hsource : ∀ source ∈ linked, linked[source.id]? = some source := by
    intro source hmem
    obtain ⟨j, hj⟩ := mem_iff_getElem?.mp hmem
    rcases hspec j with ⟨hnone, _⟩ | ⟨_, middle, _, _, h2, _, hid, _⟩
    · rcases forall₂_getElem (mapM_forall₂ h) j with ⟨_, h2⟩ | ⟨block, _, h1, _⟩
      · nomatch hj.symm.trans h2
      · nomatch hnone.symm.trans h1
    · cases hj.symm.trans h2
      rw [hid]
      exact hj
  refine ⟨fun j => ?_, fun b hb c hc => ?_, fun c hc p hp => ?_⟩
  · rcases hspec j with hnone | ⟨block, _, last, h1, _, h3, _, hlinked, _⟩
    · exact .inl hnone
    · exact .inr ⟨block, last, h1, h3, hlinked⟩
  · obtain ⟨jb, middle, hmiddle, hb_id, hsucc, _⟩ := hplace b hb
    obtain ⟨jc, _, _, hc_id, _, hpreds⟩ := hplace c hc
    rw [hpreds, hsucc, hc_id, hb_id]
    constructor
    · intro hmem
      have hmem' := mem_of_getElem? hmiddle
      have hid : middle.id = jb := by
        rcases hspec jb with ⟨hnone, _⟩ | ⟨_, middle', _, _, h2, _, hid, _⟩
        · rcases forall₂_getElem (mapM_forall₂ h) jb with ⟨_, h2⟩ | ⟨block, _, h1, _⟩
          · nomatch hmiddle.symm.trans h2
          · nomatch hnone.symm.trans h1
        · cases hmiddle.symm.trans h2
          exact hid
      exact ⟨middle, hmem', hmem, hid.symm⟩
    · rintro ⟨source, hmem, hjc, rfl⟩
      cases hmiddle.symm.trans (hsource source hmem)
      exact hjc
  · obtain ⟨_, _, _, _, _, hpreds⟩ := hplace c hc
    obtain ⟨source, hmem, _, rfl⟩ := (hpreds p).mp hp
    rcases hspec source.id with ⟨hnone, _⟩ | ⟨block, _, last, h1, _, h3, _, hlinked, _⟩
    · rcases forall₂_getElem (mapM_forall₂ h) source.id with ⟨_, h2⟩ | ⟨_, _, h1, _⟩
      · nomatch (hsource source hmem).symm.trans h2
      · nomatch hnone.symm.trans h1
    · exact ⟨last, mem_of_getElem? h3, hlinked.id.trans (hids _ block h1)⟩

/-! ## The walk -/

/-- The walk is at the instruction of the program counter, or both executions have ended. -/
def Related (program : Decoder.Program) (graph : Graph) (s : Option ℕ) (t : Option (ℕ × ℕ)) :
    Prop :=
  (∃ id k block, s = some (pcAt program k) ∧ t = some (id, k) ∧ graph.blocks[id]? = some block ∧
    (block.inst_begin ≤ k ∧ k < block.inst_end ∧ block.inst_end ≤ program.instructions.length ∨
      k = program.instructions.length ∧ block.inst_end = program.instructions.length)) ∨
  (s = none ∧ (t = none ∨ ∃ id block, t = some (id, program.instructions.length) ∧
    graph.blocks[id]? = some block ∧ block.inst_end = program.instructions.length))

theorem holds_conditionForOpcode (o : Outcome) {opcode : Opcode}
    (h : isConditionalBranch opcode = true) :
    (conditionForOpcode opcode).holds o = taken o opcode := by
  cases opcode with
  | sCbranchScc0 | sCbranchScc1 | sCbranchVccz | sCbranchVccnz | sCbranchExecz | sCbranchExecnz =>
    rfl
  | _ => nomatch h

section Walk

/-- The graph has been linked from the cut blocks. -/
def LinkedGraph (program : Decoder.Program) (scan : Scan) (blocks : List BasicBlock)
    (graph : Graph) : Prop :=
  ∀ j : ℕ, (blocks[j]? = none ∧ graph.blocks[j]? = none) ∨
    ∃ block last, blocks[j]? = some block ∧ graph.blocks[j]? = some last ∧
      LinkedBlock program scan.setpc_targets blocks block last

variable (hdecoded : program.Decoded) (hlayout : Layout program scan.labels blocks)
  (hlinked : LinkedGraph program scan blocks graph)

include hlayout in
theorem blockOfPc_spec (h : blockOfPc blocks pc = some id) :
    ∃ block, blocks[id]? = some block ∧ pc = pcAt program block.inst_begin ∧
      (block.inst_begin < block.inst_end ∧ block.inst_end ≤ program.instructions.length ∨
        block.inst_begin = program.instructions.length ∧
          block.inst_end = program.instructions.length) := by
  unfold blockOfPc at h
  obtain ⟨block, hfind, rfl⟩ := map_eq_some_iff.mp h
  have hpc : block.start_pc = pc := by simpa using find?_some hfind
  have hmem := mem_of_find?_eq_some hfind
  obtain ⟨j, hj⟩ := mem_iff_getElem?.mp hmem
  obtain ⟨h1, h2, h3, h4⟩ := hlayout.span block hmem
  rw [hlayout.ids j block hj]
  refine ⟨block, hj, hpc.symm.trans h3, ?_⟩
  cases hnext : blocks[j + 1]? with
  | some block' => exact .inl ⟨(hlayout.next j block block' hj hnext).2, h2⟩
  | none =>
    have hlast := hlayout.last j block hj hnext
    exact .inr ⟨hlast, by omega⟩

theorem exists_of_blockAt (h : blockAt blocks pc = .ok id) : blockOfPc blocks pc = some id := by
  unfold blockAt at h
  split at h
  · nomatch h
  next hfind =>
    rw [hfind, Except.ok.inj h]

include hlayout hlinked

theorem related_enter (h : blockOfPc blocks pc = some id) :
    Related program graph (some pc) (graph.enter id) := by
  obtain ⟨block, hblock, rfl, hspan⟩ := blockOfPc_spec hlayout h
  rcases hlinked id with ⟨hnone, _⟩ | ⟨block', last, h1, h2, hlink⟩
  · nomatch hblock.symm.trans hnone
  cases hblock.symm.trans h1
  refine .inl ⟨id, block.inst_begin, last, rfl, ?_, h2, ?_⟩
  · unfold Graph.enter
    rw [h2, ← hlink.inst_begin]
    rfl
  · rw [hlink.inst_begin, hlink.inst_end]
    rcases hspan with ⟨h3, h4⟩ | h3
    · exact .inl ⟨le_rfl, h3, h4⟩
    · exact .inr h3

include hdecoded

theorem related_end (h : blockOfPc blocks program.endPc = some id) :
    Related program graph none (graph.enter id) := by
  obtain ⟨block, hblock, hpc, hspan⟩ := blockOfPc_spec hlayout h
  have hspan' : block.inst_begin = program.instructions.length ∧
      block.inst_end = program.instructions.length := by
    rcases hspan with ⟨h1, h2⟩ | h1
    · rw [← pcAt_length] at hpc
      have := pcAt_inj hdecoded (le_rfl) (by omega) hpc
      omega
    · exact h1
  rcases hlinked id with ⟨hnone, _⟩ | ⟨block', last, h1, h2, hlink⟩
  · nomatch hblock.symm.trans hnone
  cases hblock.symm.trans h1
  refine .inr ⟨rfl, .inr ⟨id, last, ?_, h2, hlink.inst_end.trans hspan'.2⟩⟩
  unfold Graph.enter
  rw [h2]
  show some (id, last.inst_begin) = _
  rw [hlink.inst_begin, hspan'.1]

omit hdecoded in
theorem related_select {pcs ids : List ℕ} (h : pcs.mapM (blockAt blocks) = .ok ids) :
    Related program graph (select value values pcs)
      ((select value values ids).bind graph.enter) := by
  have htables := rel_reverse (forall₂_zip (mapM_forall₂ h) values)
  unfold select
  rcases forall₂_find (p := fun entry => entry.1 = value) (q := fun entry => entry.1 = value)
    htables (fun x y hxy => by rw [hxy.1]) with ⟨h1, h2⟩ | ⟨x, y, h1, h2, _, hblock⟩
  · rw [h1, h2]
    exact .inr ⟨rfl, .inl rfl⟩
  · rw [h1, h2]
    exact related_enter hlayout hlinked (exists_of_blockAt hblock)

omit hdecoded in
theorem setpcTerminator_related {info : SetpcTargetInfo}
    (h : setpcTerminator blocks info = .ok terminator) :
    Related program graph (info.jump o) ((terminator.follow o).bind graph.enter) := by
  unfold setpcTerminator at h
  unfold SetpcTargetInfo.jump
  split at h
  next hindirect =>
    rw [if_pos hindirect]
    obtain ⟨targets, htargets, h⟩ := bind_eq_ok.mp h
    obtain ⟨selector_targets, hselector, h⟩ := bind_eq_ok.mp h
    cases h
    show Related program graph _
      ((if info.selector_code ≠ UINT32_MAX then
        select (o.scalar info.selector_code) (info.selector_values.take _) selector_targets
      else select (o.scalar info.pc_sgpr) info.target_pcs targets).bind graph.enter)
    split
    · -- the table ends with the shorter one of its columns
      have hselect : select (o.scalar info.selector_code) info.selector_values
          info.selector_target_pcs =
          select (o.scalar info.selector_code)
            (info.selector_values.take (min info.selector_values.length
              info.selector_target_pcs.length))
            (info.selector_target_pcs.take (min info.selector_values.length
              info.selector_target_pcs.length)) := by
        unfold select
        rw [← zip_eq_zip_take_min]
      rw [hselect]
      exact related_select hlayout hlinked hselector
    · exact related_select hlayout hlinked htargets
  next hdirect =>
    rw [if_neg hdirect]
    obtain ⟨id, htarget, h⟩ := bind_eq_ok.mp h
    cases h
    exact related_enter hlayout hlinked (exists_of_blockAt htarget)

omit hdecoded in
theorem branchTo_related (h : (blockAt blocks pc).map branchTo = .ok terminator) :
    Related program graph (some pc) ((terminator.follow o).bind graph.enter) := by
  obtain ⟨id, htarget, h⟩ := bind_eq_ok.mp h
  cases h
  exact related_enter hlayout hlinked (exists_of_blockAt htarget)

section

variable (hscan : Scanned program program.instructions.length scan)

include hscan

/-- **The last instruction of a block goes where the terminator goes.** -/
theorem terminator_related {k : ℕ} {inst : Instruction} {j : ℕ}
    (hblock : blocks[j]? = some block) (hget : program.instructions[k]? = some inst)
    (hbegin : block.inst_begin ≤ k) (hend : k + 1 = block.inst_end)
    (h : makeTerminator program scan.setpc_targets blocks block = .ok terminator) :
    Related program graph (nextPc program k inst o) ((terminator.follow o).bind graph.enter) := by
  have hk := (List.getElem?_eq_some_iff.mp hget).1
  have hnoted := hscan.noted k hk inst hget
  unfold makeTerminator at h
  rw [if_neg (by omega), show block.inst_end - 1 = k by omega, hget] at h
  simp only at h
  unfold nextPc
  split at h
  · -- the end of the program
    rename_i hop
    rw [if_pos hop]
    obtain ⟨id, htarget, h⟩ := bind_eq_ok.mp h
    cases h
    exact related_end hdecoded hlayout hlinked (exists_of_blockAt htarget)
  rename_i hendpgm
  rw [if_neg hendpgm]
  split at h
  next hop =>
    have hbranch : isBranch inst.opcode = false := by
      rw [hop]
      rfl
    obtain ⟨info, hinfo, hfind, _⟩ := hnoted.setpc hbranch hop
    rw [hfind] at h
    have hne : inst.opcode ≠ .sBranch := by simp [hop]
    have hcond : ¬ isConditionalBranch inst.opcode = true := by
      rw [hop]
      exact nofun
    rw [if_neg hne, if_neg hcond, if_pos hop, hinfo, bind_some]
    exact setpcTerminator_related hlayout hlinked h
  rename_i hsetpc
  split at h
  next hop =>
    have hbranch : inst.opcode = .sBranch := of_decide_eq_true hop
    rw [if_pos hbranch]
    exact branchTo_related hlayout hlinked h
  rename_i hbranch
  have hne : inst.opcode ≠ .sBranch := fun hop => hbranch (decide_eq_true hop)
  rw [if_neg hne]
  split at h
  next hcond =>
    rw [if_pos hcond]
    obtain ⟨true_block, htarget, h⟩ := bind_eq_ok.mp h
    split at h
    · nomatch h
    next false_block hfall =>
      cases h
      show Related program graph _
        ((some (if (conditionForOpcode inst.opcode).holds o then true_block
          else false_block)).bind graph.enter)
      rw [holds_conditionForOpcode o hcond, bind_some]
      cases taken o inst.opcode with
      | true => exact related_enter hlayout hlinked (exists_of_blockAt htarget)
      | false => exact related_enter hlayout hlinked hfall
  · -- no branch: the next block stands behind
    rename_i hcond
    rw [if_neg hcond, if_neg hsetpc]
    obtain ⟨h1, h2, h3, h4⟩ := hlayout.span block (mem_of_getElem? hblock)
    have hpc : block.end_pc = inst.endPc := by
      rw [h4, ← hend]
      exact pcAt_succ hdecoded hget
    have hne' : block.end_pc ≠ block.start_pc := by
      rw [h3, h4]
      have := pcAt_lt hdecoded (show block.inst_begin < block.inst_end by omega) h2
      omega
    split at h
    next next hnext =>
      rw [if_pos hne'] at h
      cases h
      rw [← hpc]
      exact related_enter hlayout hlinked hnext
    next hnone =>
      exfalso
      cases hnext : blocks[j + 1]? with
      | none =>
        have := hlayout.last j block hblock hnext
        omega
      | some block' =>
        have hmem := mem_of_getElem? hnext
        have hstart := (hlayout.span block' hmem).2.2.1
        rw [← (hlayout.next j block block' hblock hnext).1, ← h4] at hstart
        have hall := find?_eq_none.mp (map_eq_none_iff.mp hnone) block' hmem
        simp [hstart] at hall

/-- **The walk over the blocks and the program counter run in lockstep.** -/
theorem walk_lockstep : (linear program).Lockstep (walk program graph) (Related program graph) := by
  rintro s t o (⟨id, k, last, rfl, rfl, hlast, hplace⟩ | ⟨rfl, ht⟩)
  · rcases hplace with ⟨hbegin, hk, hle⟩ | ⟨rfl, hend⟩
    · right
      have hklt : k < program.instructions.length := by omega
      have hget := getElem?_eq_getElem hklt
      obtain ⟨inst, hinst⟩ : ∃ inst, program.instructions[k]? = some inst := ⟨_, hget⟩
      refine ⟨k, nextPc program k inst o,
        if k + 1 < last.inst_end then some (id, k + 1)
        else (last.terminator.follow o).bind graph.enter, ?_, ?_, ?_⟩
      · simp only [linear, bind_eq_bind, bind_some, findIdx_pcAt hdecoded hklt, hinst]
      · simp only [walk, bind_eq_bind, bind_some, hlast, if_pos hk, hinst]
      · rcases hlinked id with ⟨_, hnone⟩ | ⟨block, last', h1, h2, hlink⟩
        · nomatch hlast.symm.trans hnone
        cases hlast.symm.trans h2
        split
        · -- inside of a block no instruction branches
          rename_i hnext
          have hinside := hlayout.inside block (mem_of_getElem? h1) (k + 1)
            (by rw [← hlink.inst_begin]; omega) (by rw [← hlink.inst_end]; exact hnext)
          have hnoted := hscan.noted k hklt inst hinst
          have hplain : ¬ (isBranch inst.opcode = true ∨ inst.opcode = .sSetpcB64 ∨
              inst.opcode = .sEndpgm) := fun h => hinside (hnoted.next h)
          simp only [not_or] at hplain
          have hbranch : inst.opcode ≠ .sBranch := by
            intro hop
            apply hplain.1
            rw [hop]
            rfl
          have hcond : ¬ isConditionalBranch inst.opcode = true := by
            intro hop
            apply hplain.1
            unfold isBranch
            rw [hop, Bool.or_true]
          left
          refine ⟨id, k + 1, last, ?_, rfl, hlast, .inl ⟨by omega, hnext, hle⟩⟩
          unfold nextPc
          rw [if_neg hplain.2.2, if_neg hbranch, if_neg hcond, if_neg hplain.2.1,
            pcAt_succ hdecoded hinst]
        · apply terminator_related hdecoded hlayout hlinked hscan h1 hinst _ _ hlink.terminator
          · rw [← hlink.inst_begin]
            exact hbegin
          · rw [← hlink.inst_end]
            omega
    · left
      constructor
      · simp only [linear, bind_eq_bind, bind_some, pcAt_length, findIdx_end hdecoded, bind_none]
      · simp only [walk, bind_eq_bind, bind_some, hlast, hend]
        rw [if_neg (lt_irrefl _)]
  · left
    refine ⟨rfl, ?_⟩
    rcases ht with rfl | ⟨id, last, rfl, hlast, hend⟩
    · rfl
    · simp only [walk, bind_eq_bind, bind_some, hlast, hend]
      rw [if_neg (lt_irrefl _)]

end

end Walk

/-! ## The graph -/

/-- The blocks stand in the order of the addresses, and each instruction in one of them. -/
structure Partitions (program : Decoder.Program) (graph : Graph) : Prop where
  entry : graph.entry_block = 0
  ids : ∀ j (block : BasicBlock), graph.blocks[j]? = some block → block.id = j
  instructions : (graph.blocks.flatMap fun block =>
    List.range' block.inst_begin (block.inst_end - block.inst_begin)) =
      List.range program.instructions.length
  addresses : (graph.blocks.map BasicBlock.start_pc).Pairwise (· < ·)
  spans : ∀ block ∈ graph.blocks, ∀ k inst, block.inst_begin ≤ k → k < block.inst_end →
    program.instructions[k]? = some inst → block.start_pc ≤ inst.pc ∧ inst.pc < block.end_pc

/-- Successors and predecessors are blocks of the graph and say the same, and the successors
are where the terminator leads. -/
structure Consistent (graph : Graph) : Prop where
  targets : ∀ block ∈ graph.blocks, ∀ id, id ∈ block.successors ↔ id ∈ block.terminator.targets
  closed : ∀ block ∈ graph.blocks, ∀ id ∈ block.successors, id < graph.blocks.length
  edges : ∀ b ∈ graph.blocks, ∀ c ∈ graph.blocks, c.id ∈ b.successors ↔ b.id ∈ c.predecessors

section Graph

variable {labels : List ℕ}

theorem LinkedGraph.layout (hlinked : LinkedGraph program scan blocks graph)
    (h : Layout program labels blocks) : Layout program labels graph.blocks := by
  -- each block of the graph has the fields of the cut block
  have hfields : ∀ (j : ℕ) (last : BasicBlock), graph.blocks[j]? = some last →
      ∃ block, blocks[j]? = some block ∧
        LinkedBlock program scan.setpc_targets blocks block last := by
    intro j last hlast
    rcases hlinked j with ⟨_, hnone⟩ | ⟨block, last', h1, h2, hlink⟩
    · nomatch hlast.symm.trans hnone
    · cases hlast.symm.trans h2
      exact ⟨block, h1, hlink⟩
  have hmem : ∀ last ∈ graph.blocks, ∃ block ∈ blocks,
      LinkedBlock program scan.setpc_targets blocks block last := by
    intro last hlast
    obtain ⟨j, hj⟩ := mem_iff_getElem?.mp hlast
    obtain ⟨block, hblock, hlink⟩ := hfields j last hj
    exact ⟨block, mem_of_getElem? hblock, hlink⟩
  refine ⟨fun j last hj => ?_, fun last hlast => ?_, ?_, fun j last last' hj hj' => ?_,
    fun j last hj hnone => ?_, fun label hlabel => ?_, fun last hlast k hlo hhi => ?_⟩
  · obtain ⟨block, hblock, hlink⟩ := hfields j last hj
    exact hlink.id.trans (h.ids j block hblock)
  · obtain ⟨block, hblock, hlink⟩ := hmem last hlast
    rw [hlink.inst_begin, hlink.inst_end, hlink.start_pc, hlink.end_pc]
    exact h.span block hblock
  · obtain ⟨block, hblock, hbegin⟩ := h.first
    rcases hlinked 0 with ⟨hnone, _⟩ | ⟨block', last, h1, h2, hlink⟩
    · nomatch hblock.symm.trans hnone
    · cases hblock.symm.trans h1
      exact ⟨last, h2, hlink.inst_begin.trans hbegin⟩
  · obtain ⟨block, hblock, hlink⟩ := hfields j last hj
    obtain ⟨block', hblock', hlink'⟩ := hfields (j + 1) last' hj'
    rw [hlink.inst_begin, hlink.inst_end, hlink'.inst_begin]
    exact h.next j block block' hblock hblock'
  · obtain ⟨block, hblock, hlink⟩ := hfields j last hj
    rw [hlink.inst_begin]
    apply h.last j block hblock
    rcases hlinked (j + 1) with ⟨hnone', _⟩ | ⟨_, _, _, h2, _⟩
    · exact hnone'
    · nomatch hnone.symm.trans h2
  · obtain ⟨block, hblock, hstart⟩ := h.labelled label hlabel
    obtain ⟨j, hj⟩ := mem_iff_getElem?.mp hblock
    rcases hlinked j with ⟨hnone, _⟩ | ⟨block', last, h1, h2, hlink⟩
    · nomatch hj.symm.trans hnone
    · cases hj.symm.trans h1
      exact ⟨last, mem_of_getElem? h2, hlink.start_pc.trans hstart⟩
  · obtain ⟨block, hblock, hlink⟩ := hmem last hlast
    apply h.inside block hblock k
    · rw [← hlink.inst_begin]
      exact hlo
    · rw [← hlink.inst_end]
      exact hhi

theorem flatMap_ranges {bs : List BasicBlock} {a n : ℕ}
    (hspan : ∀ b ∈ bs, b.inst_begin ≤ b.inst_end) (hfirst : ∀ b, bs[0]? = some b → b.inst_begin = a)
    (hnext : ∀ (j : ℕ) (b b' : BasicBlock), bs[j]? = some b → bs[j + 1]? = some b' →
      b.inst_end = b'.inst_begin)
    (hlast : ∀ (j : ℕ) (b : BasicBlock), bs[j]? = some b → bs[j + 1]? = none → b.inst_end = n)
    (hne : bs ≠ []) :
    a ≤ n ∧ (bs.flatMap fun b => range' b.inst_begin (b.inst_end - b.inst_begin)) =
      range' a (n - a) := by
  induction bs generalizing a with
  | nil => exact absurd rfl hne
  | cons b rest ih =>
    obtain rfl := hfirst b rfl
    have hb := hspan b mem_cons_self
    cases hrest : rest with
    | nil =>
      have hend := hlast 0 b rfl (by rw [hrest]; rfl)
      subst hend
      simp [hb]
    | cons b' rest' =>
      rw [← hrest]
      have hnext' := hnext 0 b b' rfl (by rw [hrest]; rfl)
      have hih := ih (a := b.inst_end) (fun b hb => hspan b (.tail _ hb))
        (fun b'' hb'' => by
          rw [hrest] at hb''
          cases hb''
          exact hnext'.symm)
        (fun j => hnext (j + 1)) (fun j => hlast (j + 1)) (by simp [hrest])
      obtain ⟨hle, heq⟩ := hih
      refine ⟨by omega, ?_⟩
      rw [flatMap_cons, heq]
      have h : range' b.inst_begin (b.inst_end - b.inst_begin) ++
          range' (b.inst_begin + (b.inst_end - b.inst_begin)) (n - b.inst_end) =
          range' b.inst_begin (b.inst_end - b.inst_begin + (n - b.inst_end)) :=
        range'_append_1
      rw [show b.inst_begin + (b.inst_end - b.inst_begin) = b.inst_end by omega,
        show b.inst_end - b.inst_begin + (n - b.inst_end) = n - b.inst_begin by omega] at h
      exact h

/-- **A layout is a partition of the instructions.** -/
theorem Layout.partitions (hdecoded : program.Decoded) (h : Layout program labels graph.blocks)
    (hentry : graph.entry_block = 0) : Partitions program graph := by
  have hbegins : ∀ (i j : ℕ) (b b' : BasicBlock), i < j → graph.blocks[i]? = some b →
      graph.blocks[j]? = some b' → b.inst_begin < b'.inst_begin := by
    intro i j
    induction j with
    | zero => exact fun _ _ hij => absurd hij (Nat.not_lt_zero i)
    | succ j ih =>
      intro b b' hij hb hb'
      obtain ⟨middle, hmiddle⟩ : ∃ middle, graph.blocks[j]? = some middle := by
        have hlt := (List.getElem?_eq_some_iff.mp hb').1
        exact ⟨_, List.getElem?_eq_getElem (by omega)⟩
      have hstep := h.next j middle b' hmiddle hb'
      rcases Nat.lt_succ_iff_lt_or_eq.mp hij with hlt | rfl
      · have := ih b middle hlt hb hmiddle
        omega
      · cases hb.symm.trans hmiddle
        omega
  refine ⟨hentry, h.ids, ?_, ?_, fun block hblock k inst hlo hhi hget => ?_⟩
  · obtain ⟨first, hfirst, hzero⟩ := h.first
    have hranges := flatMap_ranges (a := 0) (n := program.instructions.length)
      (fun b hb => (h.span b hb).1)
      (fun b hb => by rw [← some.inj (hfirst.symm.trans hb)]; exact hzero)
      (fun j b b' hb hb' => (h.next j b b' hb hb').1)
      (fun j b hb hnone => by
        have h1 := h.last j b hb hnone
        have h2 := h.span b (mem_of_getElem? hb)
        omega)
      (fun hnil => by rw [hnil] at hfirst; nomatch hfirst)
    rw [hranges.2, range_eq_range', Nat.sub_zero]
  · rw [pairwise_map, pairwise_iff_getElem]
    intro i j hi hj hij
    have hlt := hbegins i j _ _ hij (getElem?_eq_getElem hi) (getElem?_eq_getElem hj)
    obtain ⟨_, _, h3, _⟩ := h.span _ (getElem_mem hi)
    obtain ⟨h1', h2', h3', _⟩ := h.span _ (getElem_mem hj)
    rw [h3, h3']
    exact pcAt_lt hdecoded hlt (by omega)
  · obtain ⟨h1, h2, h3, h4⟩ := h.span block hblock
    rw [h3, h4, ← pcAt_of_getElem hget]
    constructor
    · rcases Nat.lt_or_eq_of_le hlo with hlt | rfl
      · exact Nat.le_of_lt (pcAt_lt hdecoded hlt (by omega))
      · exact le_rfl
    · exact pcAt_lt hdecoded hhi h2

/-! ### Targets are blocks -/

theorem lt_of_blockOfPc (hids : ∀ j (block : BasicBlock), blocks[j]? = some block → block.id = j)
    (h : blockOfPc blocks pc = some id) : id < blocks.length := by
  obtain ⟨block, hfind, rfl⟩ := map_eq_some_iff.mp h
  obtain ⟨j, hj⟩ := mem_iff_getElem?.mp (mem_of_find?_eq_some hfind)
  rw [hids j block hj]
  exact (List.getElem?_eq_some_iff.mp hj).1

theorem branchTo_targets {target : ℕ} : (branchTo target).targets = [target] := rfl

/-- **The targets of a terminator are blocks.** -/
theorem makeTerminator_targets
    (hids : ∀ j (block : BasicBlock), blocks[j]? = some block → block.id = j)
    (h : makeTerminator program setpc_targets blocks block = .ok terminator) :
    ∀ id ∈ terminator.targets, id < blocks.length := by
  have hbranch : ∀ {pc : ℕ} {terminator : Terminator},
      (blockAt blocks pc).map branchTo = .ok terminator →
      ∀ id ∈ terminator.targets, id < blocks.length := by
    intro pc terminator h id hid
    obtain ⟨target, htarget, h⟩ := bind_eq_ok.mp h
    cases h
    rw [branchTo_targets, mem_singleton] at hid
    rw [hid]
    exact lt_of_blockOfPc hids (exists_of_blockAt htarget)
  have hret : ∀ id ∈ ({ kind := .ret } : Terminator).targets, id < blocks.length :=
    fun id hid => nomatch hid
  unfold makeTerminator at h
  split at h
  · cases h
    exact hret
  split at h
  · nomatch h
  rename_i last _
  split at h
  · exact hbranch h
  split at h
  · split at h
    · nomatch h
    rename_i entry _
    unfold setpcTerminator at h
    split at h
    · obtain ⟨targets, htargets, h⟩ := bind_eq_ok.mp h
      obtain ⟨selector_targets, hselector, h⟩ := bind_eq_ok.mp h
      cases h
      intro id hid
      have hmem : id ∈ targets := by
        have h := mem_foldl_addUnique.mp (show id ∈ targets.foldl addUnique [] from hid)
        exact h.resolve_left not_mem_nil
      obtain ⟨j, hj⟩ := mem_iff_getElem?.mp hmem
      rcases forall₂_getElem (mapM_forall₂ htargets) j with ⟨_, hnone⟩ | ⟨pc, _, _, h2, h3⟩
      · nomatch hj.symm.trans hnone
      · cases hj.symm.trans h2
        exact lt_of_blockOfPc hids (exists_of_blockAt h3)
    · exact hbranch h
  split at h
  · exact hbranch h
  split at h
  · obtain ⟨true_block, htarget, h⟩ := bind_eq_ok.mp h
    split at h
    · nomatch h
    next false_block hfall =>
      cases h
      intro id hid
      have hcases : id = true_block ∨ id = false_block := by
        rcases mem_addUnique.mp (show id ∈ addUnique (addUnique [] true_block) false_block
          from hid) with hid | rfl
        · exact .inl ((mem_addUnique.mp hid).resolve_left not_mem_nil)
        · exact .inr rfl
      rcases hcases with rfl | rfl
      · exact lt_of_blockOfPc hids (exists_of_blockAt htarget)
      · exact lt_of_blockOfPc hids hfall
  split at h
  next next hnext =>
    split at h
    · cases h
      intro id hid
      rw [branchTo_targets, mem_singleton] at hid
      rw [hid]
      exact lt_of_blockOfPc hids hnext
    · cases h
      exact hret
  · cases h
    exact hret

/-- **What `buildGraph` has made, if it accepts a decoded program.** -/
theorem buildGraph_cases (hdecoded : program.Decoded) (h : buildGraph program = .ok graph) :
    ∃ scan blocks, Scanned program program.instructions.length scan ∧
      Layout program scan.labels blocks ∧ LinkedGraph program scan blocks graph ∧
      graph.entry_block = 0 ∧
      ∀ b ∈ graph.blocks, ∀ c ∈ graph.blocks, c.id ∈ b.successors ↔ b.id ∈ c.predecessors := by
  unfold buildGraph at h
  split at h
  · nomatch h
  rename_i hne
  split at h
  · nomatch h
  simp only [bind, Except.bind] at h
  split at h
  · nomatch h
  rename_i scan hscan
  split at h
  · nomatch h
  rename_i blocks hcut
  split at h
  · nomatch h
  rename_i linked hlink
  cases h
  have hscanned := scanFrom_scanned hdecoded (n := 0) rfl (start_scanned hne) hscan
  rw [Nat.zero_add] at hscanned
  have hlayout := cutBlocks_layout hdecoded hscanned hcut
  have hpreds : ∀ block ∈ blocks, block.predecessors = [] := by
    intro block hblock
    obtain ⟨j, hj⟩ := mem_iff_getElem?.mp hblock
    obtain ⟨-, rfl⟩ := cut_block hdecoded hscanned hcut hj
    rfl
  obtain ⟨hspec, hedges, _⟩ := link_spec hlayout.ids hpreds hlink
  exact ⟨scan, blocks, hscanned, hlayout, hspec, rfl, hedges⟩

end Graph

/-- **The graph is the control flow of the shader.** -/
theorem buildGraph_faithful (program : Decoder.Program) (graph : Graph)
    (hdecoded : program.Decoded) (h : buildGraph program = .ok graph) :
    Partitions program graph ∧ Consistent graph ∧
    ∀ outcomes : List Outcome,
      (walk program graph).trace outcomes (graph.enter graph.entry_block) =
        (linear program).trace outcomes (some (firstPc program)) := by
  obtain ⟨scan, blocks, hscan, hlayout, hlinked, hentry, hedges⟩ := buildGraph_cases hdecoded h
  have hblock : ∀ last ∈ graph.blocks, ∃ block ∈ blocks,
      LinkedBlock program scan.setpc_targets blocks block last := by
    intro last hlast
    obtain ⟨j, hj⟩ := List.mem_iff_getElem?.mp hlast
    rcases hlinked j with ⟨_, hnone⟩ | ⟨block, last', h1, h2, hlink⟩
    · exact nomatch hj.symm.trans hnone
    · cases hj.symm.trans h2
      exact ⟨block, List.mem_of_getElem? h1, hlink⟩
  have hlength : blocks.length = graph.blocks.length := by
    by_contra hne
    rcases hlinked (min blocks.length graph.blocks.length) with ⟨h1, h2⟩ | ⟨_, _, h1, h2, _⟩
    · have h3 := List.getElem?_eq_none_iff.mp h1
      have h4 := List.getElem?_eq_none_iff.mp h2
      omega
    · have h3 := (List.getElem?_eq_some_iff.mp h1).1
      have h4 := (List.getElem?_eq_some_iff.mp h2).1
      omega
  refine ⟨(hlinked.layout hlayout).partitions hdecoded hentry, ⟨?_, ?_, hedges⟩, fun outcomes => ?_⟩
  · intro last hlast
    obtain ⟨block, _, hlink⟩ := hblock last hlast
    exact hlink.successors
  · intro last hlast id hid
    obtain ⟨block, _, hlink⟩ := hblock last hlast
    rw [← hlength]
    exact makeTerminator_targets hlayout.ids hlink.terminator id ((hlink.successors id).mp hid)
  · symm
    apply (walk_lockstep hdecoded hlayout hlinked hscan).trace_eq
    -- both start at the first instruction
    have hne : program.instructions ≠ [] := by
      intro hnil
      simp [buildGraph, hnil] at h
    obtain ⟨block, hfirst, hzero⟩ := hlayout.first
    have hmem := List.mem_of_getElem? hfirst
    have hstart : blockOfPc blocks (firstPc program) = some 0 := by
      have hpc := (hlayout.span block hmem).2.2.1
      rw [hzero, ← firstPc_eq hne] at hpc
      unfold blockOfPc
      cases hblocks : blocks with
      | nil => rw [hblocks] at hfirst; exact nomatch hfirst
      | cons first rest =>
        rw [hblocks] at hfirst
        obtain rfl := some.inj hfirst
        rw [List.find?_cons_of_pos (by simpa using hpc), map_some,
          hlayout.ids 0 first (by rw [hblocks]; rfl)]
    rw [hentry]
    exact related_enter hlayout hlinked hstart

/-- A branch over one instruction. -/
def skipProgram : Decoder.Program where
  code := [0, 0, 0]
  instructions := [
    { pc := 0, opcode := .sCbranchScc0, branch_target := 8 },
    { pc := 4, opcode := .other 0 },
    { pc := 8, opcode := .sEndpgm }]

theorem skipProgram_decoded : skipProgram.Decoded where
  words := by decide
  fits := by decide
  contiguous k inst next hinst hnext := by
    have hk := (List.getElem?_eq_some_iff.mp hnext).1
    change k + 1 < 3 at hk
    obtain rfl | rfl : k = 0 ∨ k = 1 := by omega
    all_goals
      obtain rfl := some.inj hinst
      obtain rfl := some.inj hnext
      rfl

theorem skipProgram_accepted : ∃ graph, buildGraph skipProgram = .ok graph := by
  have haccepted : (buildGraph skipProgram).toOption.isSome = true := by decide +kernel
  cases h : buildGraph skipProgram with
  | error e =>
    rw [h] at haccepted
    exact nomatch haccepted
  | ok graph => exact ⟨graph, rfl⟩

theorem buildGraph_faithful_skip : ∃ graph, buildGraph skipProgram = .ok graph ∧
    Partitions skipProgram graph ∧ Consistent graph ∧
    ∀ outcomes : List Outcome,
      (walk skipProgram graph).trace outcomes (graph.enter graph.entry_block) =
        (linear skipProgram).trace outcomes (some (firstPc skipProgram)) := by
  obtain ⟨graph, h⟩ := skipProgram_accepted
  exact ⟨graph, h, buildGraph_faithful skipProgram graph skipProgram_decoded h⟩

end MagnusPS5.Shader.CFG
