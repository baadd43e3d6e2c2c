/-
`BuildGraph` cuts and links the blocks as the program counter goes.

The labels are program counters of instructions, or the end; between two labels that
follow each other stands no branch except as the last instruction (`Scanned`). The blocks
that are cut lie one behind the other (`Layout`).
-/
import MagnusPS5.Lib.Checks
import MagnusPS5.Shader.ControlFlowGraph

namespace MagnusPS5.Shader.CFG

open Decoder
open Lib (bind_eq_ok)
open List Nat Option

variable {program : Decoder.Program}

/-! ## Program counters -/

/-- The program counter of an instruction, and the end behind the last one. -/
def pcAt (program : Decoder.Program) (k : ℕ) : ℕ :=
  (program.instructions[k]?.map Instruction.pc).getD program.endPc

variable {k x n : ℕ} {inst : Instruction} {xs labels : List ℕ} {scan scan' : Scan}

theorem pcAt_of_getElem (h : program.instructions[k]? = some inst) : pcAt program k = inst.pc := by
  unfold pcAt
  rw [h]
  rfl

theorem pcAt_length : pcAt program program.instructions.length = program.endPc := by
  unfold pcAt
  rw [getElem?_eq_none (le_rfl)]
  rfl

section Decoded

variable (hdecoded : program.Decoded)

include hdecoded

theorem endPc_eq (h : inst ∈ program.instructions) :
    inst.endPc = inst.pc + inst.word_count * 4 := mod_eq_of_lt (hdecoded.fits inst h)

theorem pcAt_succ (h : program.instructions[k]? = some inst) :
    pcAt program (k + 1) = inst.endPc := by
  have hmem := mem_of_getElem? h
  cases hnext : program.instructions[k + 1]? with
  | some next =>
    rw [pcAt_of_getElem hnext, hdecoded.contiguous k inst next h hnext, endPc_eq hdecoded hmem]
  | none =>
    have hlen : program.instructions.length = k + 1 := by
      have h1 := getElem?_eq_none_iff.mp hnext
      have h2 := (List.getElem?_eq_some_iff.mp h).1
      omega
    have hlast : program.instructions.getLast? = some inst := by
      rw [getLast?_eq_getElem?, hlen]
      exact h
    rw [← hlen, pcAt_length]
    unfold Program.endPc
    rw [hlast]

theorem pcAt_lt_succ (h : k < program.instructions.length) :
    pcAt program k < pcAt program (k + 1) := by
  have hget := getElem?_eq_getElem h
  have hmem := mem_of_getElem? hget
  have hwords := hdecoded.words _ hmem
  rw [pcAt_of_getElem hget, pcAt_succ hdecoded hget, endPc_eq hdecoded hmem]
  omega

variable {i j : ℕ}

theorem pcAt_lt (hij : i < j) (hj : j ≤ program.instructions.length) :
    pcAt program i < pcAt program j := by
  induction j with
  | zero => exact absurd hij (not_lt_zero i)
  | succ j ih =>
    have hstep := pcAt_lt_succ hdecoded (k := j) (by omega)
    rcases Nat.lt_succ_iff_lt_or_eq.mp hij with hlt | rfl
    · exact lt_trans (ih hlt (by omega)) hstep
    · exact hstep

section

variable (hi : i ≤ program.instructions.length) (hj : j ≤ program.instructions.length)

include hi hj

theorem pcAt_lt_iff : pcAt program i < pcAt program j ↔ i < j := by
  constructor
  · intro h
    by_contra hle
    rcases Nat.lt_or_eq_of_le (Nat.le_of_not_lt hle) with hlt | rfl
    · have := pcAt_lt hdecoded hlt hi
      omega
    · omega
  · exact fun h => pcAt_lt hdecoded h hj

theorem pcAt_inj (h : pcAt program i = pcAt program j) : i = j := by
  have h1 := pcAt_lt_iff hdecoded hi hj
  have h2 := pcAt_lt_iff hdecoded hj hi
  omega

end

theorem lowerBound_pcAt (hk : k ≤ program.instructions.length) :
    lowerBound program (pcAt program k) = k := by
  unfold lowerBound
  have hsplit : program.instructions = program.instructions.take k ++ program.instructions.drop k :=
    (take_append_drop k _).symm
  have hbefore : ∀ inst ∈ program.instructions.take k,
      decide (inst.pc < pcAt program k) = true := by
    intro inst hinst
    obtain ⟨i, hi, hget⟩ := mem_take_iff_getElem.mp hinst
    have hlt : i < k := by omega
    have hget' := List.getElem?_eq_some_iff.mpr ⟨_, hget⟩
    rw [← pcAt_of_getElem hget']
    exact decide_eq_true (pcAt_lt hdecoded hlt hk)
  have hbehind : (program.instructions.drop k).takeWhile
      (fun inst => decide (inst.pc < pcAt program k)) = [] := by
    cases hdrop : program.instructions.drop k with
    | nil => rfl
    | cons inst rest =>
      have hget : program.instructions[k]? = some inst := by
        have h := congrArg (fun list => list[0]?) hdrop
        simpa using h
      apply takeWhile_cons_of_neg
      rw [pcAt_of_getElem hget]
      simp
  have hlen : (program.instructions.take k).length = k := by
    rw [length_take]
    omega
  rw [hsplit, takeWhile_append_of_pos hbefore, hbehind, append_nil, hlen]

theorem findIdx_pcAt (hk : k < program.instructions.length) :
    program.instructions.findIdx? (fun inst => inst.pc = pcAt program k) = some k := by
  rw [findIdx?_eq_some_iff_getElem]
  refine ⟨hk, ?_, fun i hi => ?_⟩
  · rw [pcAt_of_getElem (getElem?_eq_getElem hk)]
    simp
  · have hlt := pcAt_lt hdecoded hi hk.le
    rw [pcAt_of_getElem (getElem?_eq_getElem (lt_trans hi hk))] at hlt
    simp only [decide_eq_true_eq]
    omega

theorem findIdx_end :
    program.instructions.findIdx? (fun inst => inst.pc = program.endPc) = none := by
  rw [List.findIdx?_eq_none_iff]
  intro inst hinst
  obtain ⟨i, hi, hget⟩ := List.mem_iff_getElem.mp hinst
  have hlt := pcAt_lt hdecoded hi (le_rfl)
  rw [pcAt_length, pcAt_of_getElem (List.getElem?_eq_some_iff.mpr ⟨hi, hget⟩)] at hlt
  simp only [decide_eq_false_iff_not]
  omega

end Decoded

theorem isInstructionPc_iff {pc : ℕ} :
    isInstructionPc program pc = true ↔
      ∃ k < program.instructions.length, pcAt program k = pc := by
  unfold isInstructionPc
  rw [List.any_eq_true]
  constructor
  · rintro ⟨inst, hinst, hpc⟩
    obtain ⟨k, hk, hget⟩ := List.mem_iff_getElem.mp hinst
    refine ⟨k, hk, ?_⟩
    rw [pcAt_of_getElem (List.getElem?_eq_some_iff.mpr ⟨hk, hget⟩)]
    exact of_decide_eq_true hpc
  · rintro ⟨k, hk, rfl⟩
    refine ⟨_, getElem_mem hk, ?_⟩
    rw [pcAt_of_getElem (getElem?_eq_getElem hk)]
    simp

theorem isValidTarget_pcAt {target : ℕ} (h : isValidTarget program target = true) :
    ∃ k ≤ program.instructions.length, target = pcAt program k := by
  rcases of_decide_eq_true h with h | ⟨_, h⟩
  · exact ⟨_, le_rfl, h.trans pcAt_length.symm⟩
  · obtain ⟨k, hk, rfl⟩ := isInstructionPc_iff.mp h
    exact ⟨k, le_of_lt hk, rfl⟩

/-! ## Sorted labels -/

theorem mem_insertSorted {value : ℕ} : x ∈ insertSorted value xs ↔ x = value ∨ x ∈ xs := by
  induction xs with
  | nil => simp [insertSorted]
  | cons y ys ih =>
    unfold insertSorted
    split
    · simp
    split
    next heq =>
      simp [heq]
    · simp only [mem_cons, ih]
      tauto

theorem insertSorted_pairwise {value : ℕ} (h : xs.Pairwise (· < ·)) :
    (insertSorted value xs).Pairwise (· < ·) := by
  induction xs with
  | nil => simp [insertSorted]
  | cons y ys ih =>
    obtain ⟨hy, hys⟩ := pairwise_cons.mp h
    unfold insertSorted
    split
    next hlt =>
      refine pairwise_cons.mpr ⟨fun z hz => ?_, h⟩
      rcases mem_cons.mp hz with rfl | hz
      · exact hlt
      · exact lt_trans hlt (hy z hz)
    split
    · exact h
    · refine pairwise_cons.mpr ⟨fun z hz => ?_, ih hys⟩
      rcases mem_insertSorted.mp hz with rfl | hz
      · omega
      · exact hy z hz

theorem mem_sortUnique : x ∈ sortUnique xs ↔ x ∈ xs := by
  induction xs with
  | nil => rfl
  | cons y ys ih =>
    show x ∈ insertSorted y (sortUnique ys) ↔ _
    rw [mem_insertSorted, ih, mem_cons]

theorem mem_foldl_insertSorted {values : List ℕ} :
    x ∈ values.foldl (fun labels target => insertSorted target labels) labels ↔
      x ∈ values ∨ x ∈ labels := by
  induction values generalizing labels with
  | nil => simp
  | cons y ys ih =>
    rw [foldl_cons, ih, mem_insertSorted, mem_cons]
    tauto

theorem foldl_insertSorted_pairwise {values : List ℕ} (h : labels.Pairwise (· < ·)) :
    (values.foldl (fun labels target => insertSorted target labels) labels).Pairwise (· < ·) := by
  induction values generalizing labels with
  | nil => exact h
  | cons y ys ih => exact ih (insertSorted_pairwise h)

/-! ## What the loop over the instructions collects -/

/-- What the labels and the resolved targets have to hold of an instruction. -/
structure Noted (program : Decoder.Program) (scan : Scan) (k : ℕ) (inst : Instruction) : Prop where
  branch : isBranch inst.opcode = true → inst.branch_target ∈ scan.labels
  setpc : isBranch inst.opcode = false → inst.opcode = .sSetpcB64 →
    ∃ info, resolveSetpcTargets program k = some info ∧
      scan.setpc_targets.find? (fun entry => entry.1 = inst.pc) = some (inst.pc, info) ∧
      ∀ target ∈ info.targets, target ∈ scan.labels
  next : isBranch inst.opcode = true ∨ inst.opcode = .sSetpcB64 ∨ inst.opcode = .sEndpgm →
    pcAt program (k + 1) ∈ scan.labels

/-- The labels are sorted program counters, and the first `n` instructions are noted. -/
structure Scanned (program : Decoder.Program) (n : ℕ) (scan : Scan) : Prop where
  sorted : scan.labels.Pairwise (· < ·)
  first : pcAt program 0 ∈ scan.labels
  last : program.endPc ∈ scan.labels
  starts : ∀ label ∈ scan.labels, ∃ k ≤ program.instructions.length, label = pcAt program k
  entries : ∀ entry ∈ scan.setpc_targets, entry.1 < pcAt program n
  noted : ∀ k < n, ∀ inst, program.instructions[k]? = some inst → Noted program scan k inst

theorem find_append {α : Type*} {p : α → Bool} {xs ys : List α} {x : α}
    (h : xs.find? p = some x) : (xs ++ ys).find? p = some x := by
  rw [find?_append, h]
  rfl

theorem Noted.mono
    (h : Noted program scan k inst) (hlabels : ∀ label ∈ scan.labels, label ∈ scan'.labels)
    (hfind : ∀ pc entry, scan.setpc_targets.find? (fun entry => entry.1 = pc) = some entry →
      scan'.setpc_targets.find? (fun entry => entry.1 = pc) = some entry) :
    Noted program scan' k inst := by
  refine ⟨fun hb => hlabels _ (h.branch hb), fun hb hop => ?_, fun hop => hlabels _ (h.next hop)⟩
  obtain ⟨info, h1, h2, h3⟩ := h.setpc hb hop
  exact ⟨info, h1, hfind _ _ h2, fun target ht => hlabels _ (h3 target ht)⟩

section Scan

variable (hdecoded : program.Decoded)

include hdecoded

theorem pcAt_le_end (hk : k ≤ program.instructions.length) : pcAt program k ≤ program.endPc := by
  rw [← pcAt_length]
  rcases lt_or_eq_of_le hk with hlt | rfl
  · exact le_of_lt (pcAt_lt hdecoded hlt (le_rfl))
  · exact le_rfl

theorem insertNext_eq (h : program.instructions[k]? = some inst) :
    insertNext program inst.endPc labels = insertSorted (pcAt program (k + 1)) labels := by
  have hlt := (List.getElem?_eq_some_iff.mp h).1
  unfold insertNext
  rw [← pcAt_succ hdecoded h, if_pos (pcAt_le_end hdecoded hlt)]

/-- **One round keeps `Scanned`.** -/
theorem scanInstruction_scanned
    (hget : program.instructions[n]? = some inst) (h : Scanned program n scan)
    (hscan : scanInstruction program n inst scan = .ok scan') : Scanned program (n + 1) scan' := by
  have hn := (List.getElem?_eq_some_iff.mp hget).1
  have hlt := pcAt_lt_succ hdecoded hn
  -- the invariant for labels and targets that have been added
  have hkeep : scan'.labels.Pairwise (· < ·) → (∀ label ∈ scan.labels, label ∈ scan'.labels) →
      (∀ label ∈ scan'.labels, ∃ k ≤ program.instructions.length, label = pcAt program k) →
      (∀ entry ∈ scan'.setpc_targets, entry.1 < pcAt program (n + 1)) →
      (∀ pc entry, scan.setpc_targets.find? (fun entry => entry.1 = pc) = some entry →
        scan'.setpc_targets.find? (fun entry => entry.1 = pc) = some entry) →
      Noted program scan' n inst → Scanned program (n + 1) scan' := by
    intro hsorted hlabels hstarts hentries hfind hnoted
    refine ⟨hsorted, hlabels _ h.first, hlabels _ h.last, hstarts, hentries, ?_⟩
    intro k hk inst' hget'
    rcases Nat.lt_succ_iff_lt_or_eq.mp hk with hlt | rfl
    · exact (h.noted k hlt inst' hget').mono hlabels hfind
    · cases hget.symm.trans hget'
      exact hnoted
  have hentries : ∀ entry ∈ scan.setpc_targets, entry.1 < pcAt program (n + 1) :=
    fun entry hentry => lt_trans (h.entries entry hentry) hlt
  unfold scanInstruction at hscan
  split at hscan
  next hbranch =>
    split at hscan
    · exact nomatch hscan
    rename_i hvalid
    cases hscan
    obtain ⟨kt, hkt, htarget⟩ := isValidTarget_pcAt (by simpa using hvalid)
    simp only [insertNext_eq hdecoded hget] at hkeep ⊢
    apply hkeep
    · exact insertSorted_pairwise (insertSorted_pairwise h.sorted)
    · intro label hlabel
      exact mem_insertSorted.mpr (.inr (mem_insertSorted.mpr (.inr hlabel)))
    · intro label hlabel
      rcases mem_insertSorted.mp hlabel with rfl | hlabel
      · exact ⟨n + 1, hn, rfl⟩
      rcases mem_insertSorted.mp hlabel with rfl | hlabel
      · exact ⟨kt, hkt, htarget⟩
      · exact h.starts label hlabel
    · exact hentries
    · exact fun _ _ hfind => hfind
    · refine ⟨fun _ => ?_, fun hb => ?_, fun _ => mem_insertSorted.mpr (.inl rfl)⟩
      · exact mem_insertSorted.mpr (.inr (mem_insertSorted.mpr (.inl rfl)))
      · nomatch hbranch.symm.trans hb
  split at hscan
  next hbranch hsetpc =>
    split at hscan
    · nomatch hscan
    rename_i info hinfo
    split at hscan
    · nomatch hscan
    rename_i hvalid
    cases hscan
    have htargets : ∀ target ∈ info.targets,
        ∃ k ≤ program.instructions.length, target = pcAt program k := by
      intro target ht
      have hv := find?_eq_none.mp hvalid target ht
      apply isValidTarget_pcAt
      simpa using hv
    -- no earlier entry is about this instruction
    have hfresh : scan.setpc_targets.find? (fun entry => entry.1 = inst.pc) = none := by
      rw [find?_eq_none]
      intro entry hentry
      have := h.entries entry hentry
      rw [pcAt_of_getElem hget] at this
      simp only [decide_eq_true_eq]
      omega
    have hnew : (emplaceTarget inst.pc info scan.setpc_targets) =
        scan.setpc_targets ++ [(inst.pc, info)] := by
      unfold emplaceTarget
      rw [if_neg]
      rw [Bool.not_eq_true, List.any_eq_false]
      exact find?_eq_none.mp hfresh
    simp only [insertNext_eq hdecoded hget, hnew] at hkeep ⊢
    apply hkeep
    · exact insertSorted_pairwise (foldl_insertSorted_pairwise h.sorted)
    · intro label hlabel
      exact mem_insertSorted.mpr (.inr (mem_foldl_insertSorted.mpr (.inr hlabel)))
    · intro label hlabel
      rcases mem_insertSorted.mp hlabel with rfl | hlabel
      · exact ⟨n + 1, hn, rfl⟩
      rcases mem_foldl_insertSorted.mp hlabel with ht | hlabel
      · exact htargets label ht
      · exact h.starts label hlabel
    · intro entry hentry
      rcases mem_append.mp hentry with hentry | hentry
      · exact hentries entry hentry
      · rw [mem_singleton.mp hentry, ← pcAt_of_getElem hget]
        exact hlt
    · exact fun _ _ hfind => find_append hfind
    · refine ⟨fun hb => absurd hb hbranch, fun _ _ => ⟨info, hinfo, ?_, ?_⟩,
        fun _ => mem_insertSorted.mpr (.inl rfl)⟩
      · rw [find?_append, hfresh]
        simp
      · intro target ht
        exact mem_insertSorted.mpr (.inr (mem_foldl_insertSorted.mpr (.inl ht)))
  split at hscan
  next hbranch hsetpc hend =>
    cases hscan
    simp only [← pcAt_succ hdecoded hget] at hkeep ⊢
    apply hkeep
    · exact insertSorted_pairwise h.sorted
    · exact fun label hlabel => mem_insertSorted.mpr (.inr hlabel)
    · intro label hlabel
      rcases mem_insertSorted.mp hlabel with rfl | hlabel
      · exact ⟨n + 1, hn, rfl⟩
      · exact h.starts label hlabel
    · exact hentries
    · exact fun _ _ hfind => hfind
    · exact ⟨fun hb => absurd hb hbranch, fun _ hop => absurd hop hsetpc,
        fun _ => mem_insertSorted.mpr (.inl rfl)⟩
  next hbranch hsetpc hend =>
    cases hscan
    apply hkeep h.sorted (fun _ hlabel => hlabel) h.starts hentries (fun _ _ hfind => hfind)
    refine ⟨fun hb => absurd hb hbranch, fun _ hop => absurd hop hsetpc, fun hop => ?_⟩
    rcases hop with hb | hop | hop
    · exact absurd hb hbranch
    · exact absurd hop hsetpc
    · exact absurd hop hend

/-- **The whole loop.** -/
theorem scanFrom_scanned {rest : List Instruction}
    (hrest : rest = program.instructions.drop n) (h : Scanned program n scan)
    (hscan : scanFrom program n rest scan = .ok scan') :
    Scanned program (n + rest.length) scan' := by
  induction rest generalizing n scan with
  | nil =>
    cases hscan
    exact h
  | cons inst rest ih =>
    have hget : program.instructions[n]? = some inst := by
      have h := congrArg (fun list => list[0]?) hrest
      simpa using h.symm
    have hdrop : rest = program.instructions.drop (n + 1) := by
      have h := congrArg tail hrest
      simpa using h
    unfold scanFrom at hscan
    obtain ⟨scan1, hstep, hscan⟩ := bind_eq_ok.mp hscan
    have hnext := ih hdrop (scanInstruction_scanned hdecoded hget h hstep) hscan
    rw [length_cons]
    rw [show n + (rest.length + 1) = n + 1 + rest.length by omega]
    exact hnext

end Scan

theorem firstPc_eq (h : program.instructions ≠ []) : firstPc program = pcAt program 0 := by
  unfold firstPc pcAt
  cases hinsts : program.instructions with
  | nil => exact absurd hinsts h
  | cons inst rest => rfl

theorem start_scanned (h : program.instructions ≠ []) :
    Scanned program 0 {
      labels := insertSorted program.endPc (insertSorted (firstPc program) [])
      setpc_targets := [] } := by
  refine ⟨insertSorted_pairwise (insertSorted_pairwise .nil), ?_, ?_, ?_, ?_, ?_⟩
  · rw [← firstPc_eq h]
    exact mem_insertSorted.mpr (.inr (mem_insertSorted.mpr (.inl rfl)))
  · exact mem_insertSorted.mpr (.inl rfl)
  · intro label hlabel
    rcases mem_insertSorted.mp hlabel with rfl | hlabel
    · exact ⟨_, le_rfl, pcAt_length.symm⟩
    rcases mem_insertSorted.mp hlabel with rfl | hlabel
    · exact ⟨0, zero_le _, firstPc_eq h⟩
    · nomatch hlabel
  · exact fun entry hentry => nomatch hentry
  · exact fun k hk => absurd hk (not_lt_zero k)

/-! ## Blocks from label to label -/

variable {blocks : List BasicBlock}

theorem cutBlocks_getElem {id : ℕ} (hle : ∀ label ∈ labels, label ≤ program.endPc)
    (h : cutBlocks program id labels = .ok blocks) (j : ℕ) :
    blocks[j]? = labels[j]?.map fun start =>
      makeBlock program (id + j) start (labels[j + 1]?.getD program.endPc) := by
  induction labels generalizing blocks id j with
  | nil =>
    cases h
    rfl
  | cons start rest ih =>
    obtain ⟨hstart, hrest⟩ := forall_mem_cons.mp hle
    unfold cutBlocks at h
    rw [if_neg (not_lt.mpr hstart)] at h
    split at h
    · nomatch h
    · obtain ⟨tail, hcut, h⟩ := bind_eq_ok.mp h
      cases h
      cases j with
      | zero =>
        rw [head?_eq_getElem?]
        rfl
      | succ j =>
        have hj := ih hrest hcut j
        rw [getElem?_cons_succ, hj, getElem?_cons_succ, getElem?_cons_succ, add_assoc, add_comm 1 j]

/-- The blocks stand one behind the other, from the first instruction to the end, and inside
of a block stands no label. The last block is empty. -/
structure Layout (program : Decoder.Program) (labels : List ℕ) (blocks : List BasicBlock) :
    Prop where
  ids : ∀ j (block : BasicBlock), blocks[j]? = some block → block.id = j
  span : ∀ block ∈ blocks, block.inst_begin ≤ block.inst_end ∧
    block.inst_end ≤ program.instructions.length ∧
    block.start_pc = pcAt program block.inst_begin ∧ block.end_pc = pcAt program block.inst_end
  first : ∃ block, blocks[0]? = some block ∧ block.inst_begin = 0
  next : ∀ j (block block' : BasicBlock), blocks[j]? = some block →
    blocks[j + 1]? = some block' →
    block.inst_end = block'.inst_begin ∧ block.inst_begin < block.inst_end
  last : ∀ j (block : BasicBlock), blocks[j]? = some block → blocks[j + 1]? = none →
    block.inst_begin = program.instructions.length
  labelled : ∀ label ∈ labels, ∃ block ∈ blocks, block.start_pc = label
  inside : ∀ block ∈ blocks, ∀ k, block.inst_begin < k → k < block.inst_end →
    pcAt program k ∉ labels

/-- A label, or the end of the program behind the last one. -/
def labelAt (program : Decoder.Program) (labels : List ℕ) (j : ℕ) : ℕ :=
  labels[j]?.getD program.endPc

section Cut

variable (hdecoded : program.Decoded) (hscan : Scanned program n scan)

include hdecoded hscan

theorem Scanned.le_end : ∀ label ∈ scan.labels, label ≤ program.endPc := by
  intro label hlabel
  obtain ⟨k, hk, rfl⟩ := hscan.starts label hlabel
  exact pcAt_le_end hdecoded hk

/-- A label is the address of the instruction that `lowerBound` finds for it. -/
theorem Scanned.place (j : ℕ) : lowerBound program (labelAt program scan.labels j) ≤
      program.instructions.length ∧
    labelAt program scan.labels j = pcAt program (lowerBound program (labelAt program scan.labels j))
    := by
  have hplace : ∃ k ≤ program.instructions.length,
      labelAt program scan.labels j = pcAt program k := by
    unfold labelAt
    cases hj : scan.labels[j]? with
    | none => exact ⟨_, le_rfl, pcAt_length.symm⟩
    | some label => exact hscan.starts label (mem_of_getElem? hj)
  obtain ⟨k, hk, hpc⟩ := hplace
  rw [hpc, lowerBound_pcAt hdecoded hk]
  exact ⟨hk, rfl⟩

omit hdecoded in
theorem Scanned.labelAt_lt {i j : ℕ} (hij : i < j) (hj : j < scan.labels.length) :
    labelAt program scan.labels i < labelAt program scan.labels j := by
  unfold labelAt
  rw [getElem?_eq_getElem hj, getElem?_eq_getElem (hij.trans hj)]
  exact pairwise_iff_getElem.mp hscan.sorted i j (hij.trans hj) hj hij

theorem Scanned.labelAt_le_succ (j : ℕ) :
    labelAt program scan.labels j ≤ labelAt program scan.labels (j + 1) := by
  by_cases hj : j + 1 < scan.labels.length
  · exact (hscan.labelAt_lt (lt_succ_self j) hj).le
  · have hend : labelAt program scan.labels (j + 1) = program.endPc := by
      rw [labelAt, getElem?_eq_none (by omega), getD_none]
    rw [hend, (hscan.place hdecoded j).2]
    exact pcAt_le_end hdecoded (hscan.place hdecoded j).1

omit hdecoded in
/-- No label lies between a label and the next one. -/
theorem Scanned.between {j : ℕ} {label : ℕ} (hj : j < scan.labels.length)
    (hlabel : label ∈ scan.labels) (hlt : labelAt program scan.labels j < label) :
    labelAt program scan.labels (j + 1) ≤ label := by
  obtain ⟨m, hm, rfl⟩ := mem_iff_getElem.mp hlabel
  have heq : scan.labels[m] = labelAt program scan.labels m := by
    rw [labelAt, getElem?_eq_getElem hm, getD_some]
  rw [heq] at hlt ⊢
  rcases lt_trichotomy m (j + 1) with hmj | rfl | hjm
  · rcases Nat.lt_or_eq_of_le (le_of_lt_succ hmj) with hmj | rfl
    · exact absurd (hscan.labelAt_lt hmj hj) hlt.asymm
    · exact absurd hlt (lt_irrefl _)
  · exact le_rfl
  · exact (hscan.labelAt_lt hjm hm).le

variable (h : cutBlocks program 0 scan.labels = .ok blocks) {j : ℕ} {block : BasicBlock}

include h

/-- **The block at a label** goes to the next label. -/
theorem cut_block (hj : blocks[j]? = some block) : j < scan.labels.length ∧
    block = makeBlock program j (labelAt program scan.labels j)
      (labelAt program scan.labels (j + 1)) := by
  rw [cutBlocks_getElem (hscan.le_end hdecoded) h j] at hj
  obtain ⟨start, hstart, rfl⟩ := map_eq_some_iff.mp hj
  rw [zero_add, labelAt, hstart]
  exact ⟨(List.getElem?_eq_some_iff.mp hstart).1, rfl⟩

theorem cut_span (hj : blocks[j]? = some block) : block.inst_begin ≤ block.inst_end ∧
    block.inst_end ≤ program.instructions.length ∧
    block.start_pc = pcAt program block.inst_begin ∧
    block.end_pc = pcAt program block.inst_end := by
  obtain ⟨-, rfl⟩ := cut_block hdecoded hscan h hj
  obtain ⟨hk, hpc⟩ := hscan.place hdecoded j
  obtain ⟨hk', hpc'⟩ := hscan.place hdecoded (j + 1)
  refine ⟨?_, hk', hpc, hpc'⟩
  by_contra hgt
  have hlt := pcAt_lt hdecoded (Nat.lt_of_not_le hgt) hk
  change pcAt program (lowerBound program _) < pcAt program (lowerBound program _) at hlt
  rw [← hpc, ← hpc'] at hlt
  exact absurd (hscan.labelAt_le_succ hdecoded j) (not_le.mpr hlt)

theorem cut_first : ∃ block, blocks[0]? = some block ∧ block.inst_begin = 0 := by
  obtain ⟨m, hm, hm0⟩ := mem_iff_getElem.mp hscan.first
  have hpos : 0 < scan.labels.length := by omega
  -- no label is less than the first program counter
  have hzero : scan.labels[0] = pcAt program 0 := by
    rcases Nat.eq_zero_or_pos m with rfl | hmpos
    · exact hm0
    · have hlt := pairwise_iff_getElem.mp hscan.sorted 0 m hpos hm hmpos
      obtain ⟨k, hk, hpc⟩ := hscan.starts _ (getElem_mem hpos)
      rw [hm0, hpc] at hlt
      have := (pcAt_lt_iff hdecoded hk (zero_le _)).mp hlt
      omega
  refine ⟨makeBlock program 0 (pcAt program 0) (labelAt program scan.labels 1), ?_,
    lowerBound_pcAt hdecoded (zero_le _)⟩
  rw [cutBlocks_getElem (hscan.le_end hdecoded) h 0, getElem?_eq_getElem hpos, hzero]
  rfl

theorem cut_last (hj : blocks[j]? = some block) (hnone : blocks[j + 1]? = none) :
    block.inst_begin = program.instructions.length := by
  have hle := hscan.le_end hdecoded
  rw [cutBlocks_getElem hle h (j + 1), map_eq_none_iff, getElem?_eq_none_iff] at hnone
  obtain ⟨hjlt, rfl⟩ := cut_block hdecoded hscan h hj
  obtain ⟨m, hm, hmend⟩ := mem_iff_getElem.mp hscan.last
  have heq : labelAt program scan.labels j = program.endPc := by
    rw [labelAt, getElem?_eq_getElem hjlt, getD_some]
    rcases Nat.lt_or_eq_of_le (show m ≤ j by omega) with hmj | rfl
    · have := pairwise_iff_getElem.mp hscan.sorted m j hm hjlt hmj
      have := hle _ (getElem_mem hjlt)
      omega
    · exact hmend
  show lowerBound program (labelAt program scan.labels j) = _
  rw [heq, ← pcAt_length]
  exact lowerBound_pcAt hdecoded le_rfl

theorem cut_inside (hj : blocks[j]? = some block) {k : ℕ} (hlo : block.inst_begin < k)
    (hhi : k < block.inst_end) : pcAt program k ∉ scan.labels := by
  intro hlabel
  obtain ⟨hjlt, rfl⟩ := cut_block hdecoded hscan h hj
  obtain ⟨-, hpc⟩ := hscan.place hdecoded j
  obtain ⟨hk', hpc'⟩ := hscan.place hdecoded (j + 1)
  change lowerBound program _ < k at hlo
  change k < lowerBound program _ at hhi
  have hlt : labelAt program scan.labels j < pcAt program k := by
    rw [hpc]
    exact pcAt_lt hdecoded hlo (by omega)
  have hge := hscan.between hjlt hlabel hlt
  have hlt' := pcAt_lt hdecoded hhi hk'
  rw [← hpc'] at hlt'
  omega

/-- **Cutting at the labels gives a `Layout`.** -/
theorem cutBlocks_layout : Layout program scan.labels blocks where
  ids j block hj := by
    obtain ⟨-, rfl⟩ := cut_block hdecoded hscan h hj
    rfl
  span block hmem := by
    obtain ⟨j, hj⟩ := mem_iff_getElem?.mp hmem
    exact cut_span hdecoded hscan h hj
  first := cut_first hdecoded hscan h
  next j block block' hj hj' := by
    obtain ⟨-, rfl⟩ := cut_block hdecoded hscan h hj
    obtain ⟨hnext, rfl⟩ := cut_block hdecoded hscan h hj'
    refine ⟨rfl, ?_⟩
    obtain ⟨hk, hpc⟩ := hscan.place hdecoded j
    obtain ⟨hk', hpc'⟩ := hscan.place hdecoded (j + 1)
    have hlt : labelAt program scan.labels j < labelAt program scan.labels (j + 1) :=
      hscan.labelAt_lt (lt_succ_self j) hnext
    rw [hpc, hpc'] at hlt
    exact (pcAt_lt_iff hdecoded hk hk').mp hlt
  last j block := cut_last hdecoded hscan h
  labelled label hlabel := by
    obtain ⟨j, hj⟩ := mem_iff_getElem?.mp hlabel
    have hget := cutBlocks_getElem (hscan.le_end hdecoded) h j
    rw [hj] at hget
    exact ⟨_, mem_of_getElem? hget, rfl⟩
  inside block hmem k hlo hhi := by
    obtain ⟨j, hj⟩ := mem_iff_getElem?.mp hmem
    exact cut_inside hdecoded hscan h hj hlo hhi

end Cut

end MagnusPS5.Shader.CFG
