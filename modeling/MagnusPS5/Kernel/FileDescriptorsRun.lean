/-
The table of files over all sequences of calls.

`getFile` is what a table means: a number has a file or none. `kernelOpen_spec` says what one
call of `KernelOpen` does to this map; only a truncating open for reading leaves a file
behind that was never opened. `descriptors_consistent` says that without such a call every
file in the table is open, an open that fails changes nothing, and one that succeeds returns
a number that was free.
-/
import MagnusPS5.Kernel.FileDescriptors

namespace MagnusPS5.Kernel.FileSystem

open Option List FileSystem.Mode State

variable {m_files : Files} {d : ℤ}

/-! ## Slots -/

theorem slotOf_eq_some {index : ℕ} : slotOf d = some index ↔ d = index + DESCRIPTOR_MIN := by
  unfold slotOf
  split
  · constructor
    · simp
    · omega
  · rw [some.injEq]
    omega

theorem getFile_slot (index : ℕ) : getFile m_files (index + DESCRIPTOR_MIN) = m_files[index]?.join := by
  rw [getFile, slotOf_eq_some.mpr rfl]

theorem exists_slot (h : DESCRIPTOR_MIN ≤ d) : ∃ index : ℕ, d = index + DESCRIPTOR_MIN :=
  ⟨(d - DESCRIPTOR_MIN).toNat, by omega⟩

theorem getFile_of_lt (h : d < DESCRIPTOR_MIN) : getFile m_files d = none := by
  rw [getFile, slotOf, if_pos h]

theorem getFile_ext {m_files' : Files} {f : ℤ → Option File}
    (hlow : ∀ e, e < DESCRIPTOR_MIN → f e = none)
    (h : ∀ index : ℕ, m_files'[index]?.join = f (index + DESCRIPTOR_MIN)) (e : ℤ) :
    getFile m_files' e = f e := by
  by_cases he : e < DESCRIPTOR_MIN
  · rw [getFile_of_lt he, hlow e he]
  · obtain ⟨index, rfl⟩ := exists_slot (not_lt.mp he)
    rw [getFile_slot, h]

/-- **CreateDescriptor** takes the least number without a file. -/
theorem createDescriptor_spec (m_files : Files) (id : ℕ) :
    DESCRIPTOR_MIN ≤ (createDescriptor m_files id).1 ∧
      getFile m_files (createDescriptor m_files id).1 = none ∧
      (∀ e, DESCRIPTOR_MIN ≤ e → e < (createDescriptor m_files id).1 →
        getFile m_files e ≠ none) ∧
      ∀ e, getFile (createDescriptor m_files id).2 e
        = if e = (createDescriptor m_files id).1 then some { id := id } else getFile m_files e := by
  unfold createDescriptor
  cases hfree : m_files.findIdx? Option.isNone with
  | some index =>
    rw [findIdx?_eq_some_iff_getElem] at hfree
    obtain ⟨hlt, hnone, hbefore⟩ := hfree
    rw [isNone_iff_eq_none] at hnone
    have hget : m_files[index]? = some none := by
      rw [getElem?_eq_getElem hlt, hnone]
    dsimp only
    refine ⟨by omega, by rw [getFile_slot, hget]; rfl, ?_, ?_⟩
    · intro e hlow hlt' hnone'
      obtain ⟨i, rfl⟩ := exists_slot hlow
      have hi : i < index := by omega
      have hsome := hbefore i hi
      rw [getFile_slot, getElem?_eq_getElem (hi.trans hlt), join_some] at hnone'
      simp [hnone'] at hsome
    · refine getFile_ext (fun e he => ?_) (fun i => ?_)
      · rw [if_neg (by omega), getFile_of_lt he]
      · rw [getFile_slot, getElem?_set]
        by_cases hi : index = i
        · rw [if_pos hi, if_pos (hi ▸ hlt), if_pos (by omega)]
          rfl
        · rw [if_neg hi, if_neg (by omega)]
  | none =>
    rw [findIdx?_eq_none_iff] at hfree
    have hnew : ((m_files.length + 1 : ℕ) : ℤ) + DESCRIPTOR_MIN - 1
        = (m_files.length : ℤ) + DESCRIPTOR_MIN := by
      omega
    dsimp only
    rw [hnew]
    refine ⟨by omega, by simp [getFile_slot], ?_, ?_⟩
    · intro e hlow hlt hnone
      obtain ⟨i, rfl⟩ := exists_slot hlow
      have hi : i < m_files.length := by omega
      rw [getFile_slot, getElem?_eq_getElem hi, join_some] at hnone
      have hsome := hfree _ (getElem_mem hi)
      simp [hnone] at hsome
    · refine getFile_ext (fun e he => ?_) (fun i => ?_)
      · rw [if_neg (by omega), getFile_of_lt he]
      · rw [getFile_slot, getElem?_append]
        by_cases hi : i < m_files.length
        · rw [if_pos hi, if_neg (by omega)]
        · rw [if_neg hi]
          by_cases heq : i = m_files.length
          · rw [if_pos (by omega), heq]
            simp
          · rw [if_neg (by omega), getElem?_eq_none (by simp; omega), getElem?_eq_none (by omega)]

variable {file : File} {before after : File → Option (Outcome Target)}

theorem getFile_putFile (h : getFile m_files d = some file) (new : Option File)
    (e : ℤ) : getFile (putFile m_files d new) e = if e = d then new else getFile m_files e := by
  have hlow : DESCRIPTOR_MIN ≤ d := by
    by_contra hlt
    rw [getFile_of_lt (not_le.mp hlt)] at h
    cases h
  obtain ⟨index, rfl⟩ := exists_slot hlow
  rw [getFile_slot] at h
  have hlt : index < m_files.length := by
    by_contra hle
    rw [getElem?_eq_none (not_lt.mp hle)] at h
    cases h
  rw [putFile, slotOf_eq_some.mpr rfl]
  revert e
  refine getFile_ext (fun e he => ?_) (fun i => ?_)
  · rw [if_neg (by omega), getFile_of_lt he]
  · rw [getFile_slot, getElem?_set]
    by_cases hi : index = i
    · rw [if_pos hi, if_pos hlt, if_pos (by omega)]
      rfl
    · rw [if_neg hi, if_neg (by omega)]

theorem undo_eq (h : getFile m_files d = some file) (hopened : file.opened = false)
    (error : Error) : undo m_files d error = (.failed error, putFile m_files d none) := by
  rw [undo, deleteDescriptor, h]
  simp [hopened]

/-! ## `KernelOpen` -/

/-- The conditions under which `KernelOpen` leaves a file behind that it did not open: a
truncating open for reading, of a path that is no random device. -/
def leaks (path : Option String) (flags : BitVec 32) : Bool :=
  match path with
  | none => false
  | some path =>
    (decodeFlags flags).mode == some .read && (decodeFlags flags).trunc &&
      !(decodeFlags flags).directory && !isRandomDevice path

/-- The conditions under which `openExisting` opens its file. -/
def opensExisting (flags : OpenFlags) (rw_mode : Mode) (host : HostAnswers) : Bool :=
  if flags.directory || host.dir_exist then
    host.dir_exist &&
      (flags.directory || (rw_mode == Mode.read && !flags.trunc && !flags.creat))
  else
    (flags.creat || host.file_exist) && !(flags.excl && flags.creat && host.file_exist) &&
      (if flags.creat && (!host.file_exist || flags.trunc) then host.created else host.opened) &&
      (!flags.trunc || host.truncated) && !host.invalid

/-- The conditions under which `KernelOpen` returns a number. -/
def opens (path : Option String) (flags : BitVec 32) (host : HostAnswers) : Bool :=
  match path, (decodeFlags flags).mode with
  | some path, some rw_mode =>
    let flags := decodeFlags flags
    if flags.directory && (rw_mode != Mode.read || flags.trunc || flags.creat) then false
    else
      (!flags.directory && isRandomDevice path) ||
        (!(flags.trunc && rw_mode == Mode.read) && opensExisting flags rw_mode host)
  | _, _ => false

/-- What one call of `KernelOpen` comes to: `m_files'` is the table after it. -/
inductive Opening (id : ℕ) (path : Option String) (flags : BitVec 32) (host : HostAnswers)
    (m_files : Files) : Outcome ℤ × Files → Prop
  /-- It returns the least free number, which now has its file. -/
  | opened (d : ℤ) (file : File) (m_files' : Files) (hopens : opens path flags host = true)
      (hleak : leaks path flags = false) (hd : d = (createDescriptor m_files id).1)
      (hopened : file.opened = true) (hid : file.id = id)
      (hget : ∀ e, getFile m_files' e = if e = d then some file else getFile m_files e) :
      Opening id path flags host m_files (.returned d, m_files')
  /-- It fails, and no number has another file than before. -/
  | failed (error : Error) (m_files' : Files) (hopens : opens path flags host = false)
      (hleak : leaks path flags = false) (hget : ∀ e, getFile m_files' e = getFile m_files e) :
      Opening id path flags host m_files (.failed error, m_files')
  /-- It fails, and the least free number has a file that is not opened. -/
  | leaked (file : File) (m_files' : Files) (hopens : opens path flags host = false)
      (hleak : leaks path flags = true) (hopened : file.opened = false)
      (hget : ∀ e, getFile m_files' e
        = if e = (createDescriptor m_files id).1 then some file else getFile m_files e) :
      Opening id path flags host m_files (.failed .eacces, m_files')
  /-- The process stops. -/
  | exit (reason : Exit) (m_files' : Files) (hopens : opens path flags host = false)
      (hleak : leaks path flags = false) (hreason : reason ≠ .notOpened) :
      Opening id path flags host m_files (.exit reason, m_files')

theorem openExisting_cases (h : getFile m_files d = some file)
    (hopened : file.opened = false) (flags : OpenFlags) (rw_mode : Mode) (host : HostAnswers) :
    (opensExisting flags rw_mode host = true ∧ ∃ new : File, new.opened = true ∧
        new.id = file.id ∧ openExisting m_files d file flags rw_mode host
          = (.returned d, putFile m_files d (some new))) ∨
      (opensExisting flags rw_mode host = false ∧ ∃ error,
        openExisting m_files d file flags rw_mode host = (.failed error, putFile m_files d none)) ∨
      opensExisting flags rw_mode host = false ∧
        openExisting m_files d file flags rw_mode host = (.exit .notImplemented, m_files) := by
  unfold openExisting opensExisting
  simp only [undo_eq h hopened]
  by_cases hmissing : (!flags.creat && !host.dir_exist && !host.file_exist) = true
  · rw [if_pos hmissing]
    simp only [Bool.and_eq_true, Bool.not_eq_true'] at hmissing
    obtain ⟨⟨hcreat, hdir⟩, hfile⟩ := hmissing
    right
    left
    simp [hcreat, hdir, hfile]
  rw [if_neg hmissing]
  by_cases hdirectory : (flags.directory || host.dir_exist) = true
  · rw [if_pos hdirectory, if_pos hdirectory]
    by_cases hdir : host.dir_exist = true
    · simp only [hdir, Bool.not_true, Bool.false_eq_true, if_false, Bool.true_and]
      by_cases hmode : (!flags.directory && rw_mode != read) = true
      · rw [if_pos hmode]
        simp only [Bool.and_eq_true, Bool.not_eq_true', bne_iff_ne] at hmode
        right
        right
        simp [hmode.1, hmode.2]
      rw [if_neg hmode]
      by_cases htrunc : (!flags.directory && (flags.trunc || flags.creat)) = true
      · rw [if_pos htrunc]
        simp only [Bool.and_eq_true, Bool.not_eq_true', Bool.or_eq_true] at htrunc
        right
        right
        rcases htrunc.2 with h' | h' <;> simp [htrunc.1, h']
      · rw [if_neg htrunc]
        left
        refine ⟨?_, _, ?_, ?_, rfl⟩
        · cases hd : flags.directory <;> simp_all
        · simp
        · simp
    · right
      left
      simp [hdir]
  rw [if_neg hdirectory, if_neg hdirectory]
  by_cases hexcl : (flags.excl && flags.creat && host.file_exist) = true
  · rw [if_pos hexcl]
    right
    left
    exact ⟨by rw [hexcl]; simp, .eexist, rfl⟩
  rw [if_neg hexcl]
  rw [Bool.not_eq_true] at hexcl
  have hsome : (flags.creat || host.file_exist) = true := by
    rw [Bool.or_eq_true]
    by_contra hnone
    rw [not_or, Bool.not_eq_true, Bool.not_eq_true] at hnone
    rw [Bool.or_eq_true, not_or, Bool.not_eq_true, Bool.not_eq_true] at hdirectory
    simp [hnone.1, hnone.2, hdirectory.2] at hmissing
  generalize (if (flags.creat && (!host.file_exist || flags.trunc)) = true
    then host.created else host.opened) = result
  rw [hexcl, hsome]
  -- the two results, and the host's last word
  have hresult : (if (result && flags.trunc) = true then host.truncated else result)
      = (result && (!flags.trunc || host.truncated)) := by
    cases result <;> cases flags.trunc <;> simp
  rw [hresult]
  cases hgood : (result && (!flags.trunc || host.truncated)) with
  | false =>
    right
    left
    exact ⟨by simp [hgood], .eacces, by simp⟩
  | true =>
    cases hinvalid : host.invalid with
    | true =>
      right
      left
      exact ⟨by simp, .eacces, by simp⟩
    | false =>
      left
      exact ⟨by simp [hgood], { file with opened := true }, rfl, rfl, by simp⟩

/-- **KernelOpen.** -/
theorem kernelOpen_spec (m_files : Files) (id : ℕ) (path : Option String) (flags : BitVec 32)
    (host : HostAnswers) :
    Opening id path flags host m_files (kernelOpen m_files id path flags host) := by
  cases path with
  | none => exact .failed _ _ (by simp [opens]) (by simp [leaks]) fun _ => rfl
  | some path =>
    rw [kernelOpen]
    cases hmode : (decodeFlags flags).mode with
    | none =>
      exact .exit _ _ (by simp [opens, hmode]) (by simp [leaks, hmode]) (by simp)
    | some rw_mode =>
      dsimp only
      by_cases hwrite : ((decodeFlags flags).directory && rw_mode != read) = true
      · rw [if_pos hwrite]
        simp only [Bool.and_eq_true, bne_iff_ne] at hwrite
        exact .exit _ _ (by simp [opens, hmode, hwrite]) (by simp [leaks, hwrite]) (by simp)
      rw [if_neg hwrite]
      by_cases htrunc : ((decodeFlags flags).directory &&
          ((decodeFlags flags).trunc || (decodeFlags flags).creat)) = true
      · rw [if_pos htrunc]
        simp only [Bool.and_eq_true, Bool.or_eq_true] at htrunc
        refine .exit _ _ ?_ (by simp [leaks, htrunc.1]) (by simp)
        rcases htrunc.2 with h | h <;> simp [opens, hmode, htrunc.1, h]
      rw [if_neg htrunc]
      -- past this point the descriptor exists
      have hplain : ((decodeFlags flags).directory && (rw_mode != read ||
          (decodeFlags flags).trunc || (decodeFlags flags).creat)) = false := by
        cases hd : (decodeFlags flags).directory <;> simp_all
      obtain ⟨-, hnone, -, hget⟩ := createDescriptor_spec m_files id
      have hnew : getFile (createDescriptor m_files id).2 (createDescriptor m_files id).1
          = some { id := id } := by
        rw [hget, if_pos rfl]
      rw [hnew]
      dsimp only
      rw [if_neg (by simp), show (describe { id := id } path (decodeFlags flags) rw_mode).name
        = path from rfl]
      by_cases hdevice : (!(decodeFlags flags).directory && isRandomDevice path) = true
      · rw [if_pos hdevice]
        refine .opened _ (describe { id := id } path (decodeFlags flags) rw_mode
          |> asRandom) _ ?_ ?_ rfl ?_ ?_ fun e => ?_
        · simp only [opens, hmode, hplain, hdevice, Bool.true_or]
          simp
        · simp only [Bool.and_eq_true, Bool.not_eq_true'] at hdevice
          simp [leaks, hdevice.2]
        · rfl
        · rfl
        · rw [getFile_putFile hnew, hget]
          split <;> rfl
      rw [if_neg hdevice]
      by_cases hleak : ((decodeFlags flags).trunc && rw_mode == read) = true
      · rw [if_pos hleak]
        refine .leaked { describe { id := id } path (decodeFlags flags) rw_mode with
          real_name := host.real_name } _ ?_ ?_ ?_ fun e => ?_
        · simp only [opens, hmode, hplain, hleak]
          simpa using hdevice
        · simp only [Bool.and_eq_true, beq_iff_eq] at hleak
          cases hd : (decodeFlags flags).directory <;> simp_all [leaks]
        · rfl
        · rw [getFile_putFile hnew, hget]
          split <;> rfl
      rw [if_neg hleak]
      have hleaks : leaks (some path) flags = false := by
        cases ht : (decodeFlags flags).trunc <;> simp_all [leaks]
      have hopens : opens (some path) flags host
          = opensExisting (decodeFlags flags) rw_mode host := by
        simp only [opens, hmode, hplain, hdevice, hleak]
        simp
      have hput := getFile_putFile hnew
      set file := { describe { id := id } path (decodeFlags flags) rw_mode with
        real_name := host.real_name } with hfile
      change Opening id (some path) flags host m_files
        (openExisting (putFile _ _ (some file)) _ file (decodeFlags flags) rw_mode host)
      rcases openExisting_cases (by rw [hput, if_pos rfl]) (show file.opened = false from rfl)
        (decodeFlags flags) rw_mode host with
        ⟨hyes, new, hnewopened, hid, heq⟩ | ⟨hno, error, heq⟩ | ⟨hno, heq⟩
      · rw [heq]
        refine .opened _ new _ (hopens.trans hyes) hleaks rfl hnewopened hid fun e => ?_
        rw [getFile_putFile (by rw [hput, if_pos rfl]), hput, hget]
        split <;> rfl
      · rw [heq]
        refine .failed _ _ (hopens.trans hno) hleaks fun e => ?_
        rw [getFile_putFile (by rw [hput, if_pos rfl]), hput, hget]
        split
        next he =>
          rw [he, hnone]
        · rfl
      · rw [heq]
        exact .exit _ _ (hopens.trans hno) hleaks (by simp)

/-! ## The table over a run -/

/-- Every file in the table is opened. -/
def AllOpened (m_files : Files) : Prop :=
  ∀ d file, getFile m_files d = some file → file.opened = true

/-- What the claim on the table says of a state: every file in it is opened, and no call on a
number stops the process for a file that is not. -/
structure Consistent (σ : State) : Prop where
  opened : AllOpened σ.files
  read : ∀ d buf nbytes, kernelRead σ.network σ.files d buf nbytes ≠ .exit .notOpened
  write : ∀ d buf nbytes, kernelWrite σ.network σ.files d buf nbytes ≠ .exit .notOpened
  pread : ∀ d buf nbytes offset, kernelPread σ.files d buf nbytes offset ≠ .exit .notOpened
  pwrite : ∀ d buf nbytes offset, kernelPwrite σ.files d buf nbytes offset ≠ .exit .notOpened
  lseek : ∀ d, kernelLseek σ.files d ≠ .exit .notOpened
  fstat : ∀ d sb, kernelFstat σ.files d sb ≠ .exit .notOpened
  getdirentries : ∀ fd buf nbytes, kernelGetdirentries σ.files fd buf nbytes ≠ .exit .notOpened
  close : ∀ d, closeTarget σ.network σ.files d ≠ .exit .notOpened

/-- What a call of `KernelOpen` may do to the table: nothing if it fails, and otherwise an
opened file at a number that had none. -/
def OpenSafe (m_files : Files) (id : ℕ) : Outcome ℤ × Files → Prop
  | (.returned d, m_files') =>
    getFile m_files d = none ∧ ∃ file, file.opened = true ∧ file.id = id ∧
      ∀ e, getFile m_files' e = if e = d then some file else getFile m_files e
  | (.failed _, m_files') => ∀ e, getFile m_files' e = getFile m_files e
  | (.exit _, _) => True

theorem withFile_ne_notOpened (h : AllOpened m_files)
    (hbefore : ∀ file, before file ≠ some (.exit .notOpened))
    (hafter : ∀ file, after file ≠ some (.exit .notOpened)) :
    withFile m_files d before after ≠ .exit .notOpened := by
  unfold withFile
  cases hfile : getFile m_files d with
  | none => simp
  | some file =>
    dsimp only
    cases hb : before file with
    | some outcome => simpa [hb] using hbefore file
    | none =>
      have ha := hafter file
      rw [h d file hfile]
      cases hafter : after file with
      | none => simp
      | some outcome => simpa [hafter] using ha

variable {network : Network} {σ τ : State} {op : Op}

theorem withSocket_ne_notOpened : withSocket network d ≠ .exit .notOpened := by
  unfold withSocket
  split <;> simp

theorem noDirectory_ne (file : File) : noDirectory file ≠ some (.exit .notOpened) := by
  unfold noDirectory
  split <;> simp

theorem regularOnly_ne (file : File) : regularOnly file ≠ some (.exit .notOpened) := by
  unfold regularOnly
  split <;> simp

theorem fitsUint_ne (nbytes : ℕ) (file : File) :
    fitsUint nbytes file ≠ some (.exit .notOpened) := by
  unfold fitsUint
  split <;> simp

theorem noCheck_ne (file : File) : noCheck file ≠ some (.exit .notOpened) := by simp [noCheck]

theorem AllOpened.consistent (h : AllOpened σ.files) : Consistent σ where
  opened := h
  read d buf nbytes := by
    unfold kernelRead
    split_ifs
    · simp
    · simp
    · exact withSocket_ne_notOpened
    · exact withFile_ne_notOpened h noDirectory_ne (fitsUint_ne nbytes)
  write d buf nbytes := by
    unfold kernelWrite
    split_ifs
    · simp
    · simp
    · simp
    · exact withSocket_ne_notOpened
    · exact withFile_ne_notOpened h regularOnly_ne (fitsUint_ne nbytes)
  pread d buf nbytes offset := by
    unfold kernelPread
    split_ifs
    · simp
    · simp
    · simp
    · exact withFile_ne_notOpened h noDirectory_ne (fitsUint_ne nbytes)
  pwrite d buf nbytes offset := by
    unfold kernelPwrite
    split_ifs
    · simp
    · simp
    · simp
    · exact withFile_ne_notOpened h regularOnly_ne (fitsUint_ne nbytes)
  lseek d := by
    unfold kernelLseek
    split_ifs
    · simp
    · refine withFile_ne_notOpened h noDirectory_ne fun file => ?_
      split <;> simp
  fstat d sb := by
    unfold kernelFstat
    split_ifs
    · simp
    · simp
    · exact withFile_ne_notOpened h noCheck_ne noCheck_ne
  getdirentries fd buf nbytes := by
    unfold kernelGetdirentries
    split_ifs
    · simp
    · simp
    · refine withFile_ne_notOpened h (fun file => ?_) noCheck_ne
      split <;> simp
  close d := by
    unfold closeTarget
    split_ifs
    · simp
    · exact withSocket_ne_notOpened
    · exact withFile_ne_notOpened h noCheck_ne noCheck_ne

theorem getFile_of_withFile (hbefore : ∀ file target, before file ≠ some (.returned target))
    (hafter : ∀ file target, after file ≠ some (.returned target))
    (h : withFile m_files d before after = .returned (.file file)) :
    getFile m_files d = some file ∧ file.opened = true := by
  unfold withFile at h
  cases hfile : getFile m_files d with
  | none => simp [hfile] at h
  | some found =>
    rw [hfile] at h
    dsimp only at h
    cases hb : before found with
    | some outcome =>
      rw [hb] at h
      exact absurd (hb.trans (congrArg some h)) (hbefore found _)
    | none =>
      rw [hb] at h
      split_ifs at h with hopened
      cases ha : after found with
      | some outcome =>
        rw [ha] at h
        exact absurd (ha.trans (congrArg some h)) (hafter found _)
      | none =>
        rw [ha] at h
        simp only [getD_none, Outcome.returned.injEq, Target.file.injEq] at h
        rw [h] at hopened
        exact ⟨congrArg some h, by simpa using hopened⟩

/-- **KernelClose** takes the file out of the table, or leaves the table as it is. -/
theorem kernelClose_files (network : Network) (m_files : Files) (d : ℤ) (closed : Bool) :
    (∃ file, closeTarget network m_files d = .returned (.file file) ∧
      getFile m_files d = some file ∧ (kernelClose network m_files d closed).1 = .returned () ∧
      (kernelClose network m_files d closed).2.2 = network ∧
      ∀ e, getFile (kernelClose network m_files d closed).2.1 e
        = if e = d then none else getFile m_files e) ∨
    (∀ file, closeTarget network m_files d ≠ .returned (.file file)) ∧
      (kernelClose network m_files d closed).2.1 = m_files := by
  unfold kernelClose
  cases htarget : closeTarget network m_files d with
  | failed | exit => simp
  | returned target =>
    cases target with
    | stream | socket => simp
    | file file =>
      left
      have hfile : getFile m_files d = some file := by
        unfold closeTarget at htarget
        split_ifs at htarget
        · unfold withSocket at htarget
          split at htarget <;> simp at htarget
        · exact (getFile_of_withFile (by simp [noCheck]) (by simp [noCheck]) htarget).1
      have hput := getFile_putFile hfile
      have hslot : getFile (putFile m_files d (some { file with opened := false })) d
          = some { file with opened := false } := by
        rw [hput, if_pos rfl]
      dsimp only
      rw [deleteDescriptor, hslot]
      refine ⟨file, rfl, hfile, rfl, rfl, fun e => ?_⟩
      simp only [Bool.false_eq_true, if_false]
      rw [getFile_putFile hslot, hput]
      split <;> rfl

namespace State

variable {ops : List Op} {n : ℕ}

theorem after_eq_some {α : Type} {outcome : Outcome α} {files : Files}
    (h : σ.after outcome files network = some τ) :
    τ = { files := files, network := network, calls := σ.calls + 1 } ∧
      ∀ reason, outcome ≠ .exit reason := by
  cases outcome with
  | exit reason => simp [after] at h
  | returned | failed => exact ⟨(some.inj h).symm, by simp⟩

theorem run_take_succ (hop : ops[n]? = some op) :
    run (ops.take (n + 1)) = (run (ops.take n)).bind (step · op) := by
  rw [take_add_one, hop, run, foldlM_append, ← run]
  simp

theorem run_take_of_succ (hop : ops[n]? = some op) (h : run (ops.take (n + 1)) = some τ) :
    ∃ σ, run (ops.take n) = some σ ∧ σ.step op = some τ := by
  rw [run_take_succ hop] at h
  exact bind_eq_some_iff.mp h

/-- What every step keeps holds after every part of a run. -/
theorem invariant_of_step (Inv : List Op → State → Prop) (hinit : Inv [] init)
    (hstep : ∀ n σ τ op, run (ops.take n) = some σ → ops[n]? = some op → σ.step op = some τ →
      Inv (ops.take n) σ → Inv (ops.take n ++ [op]) τ) (n : ℕ) (σ : State)
    (h : run (ops.take n) = some σ) : Inv (ops.take n) σ := by
  induction n generalizing σ with
  | zero =>
    rw [take_zero, run, foldlM_nil] at h
    rwa [take_zero, ← some.inj h]
  | succ n ih =>
    cases hop : ops[n]? with
    | none =>
      have hlen := getElem?_eq_none_iff.mp hop
      have hsame : ops.take (n + 1) = ops.take n := by
        rw [take_of_length_le hlen, take_of_length_le (by omega)]
      rw [hsame] at h ⊢
      exact ih σ h
    | some op =>
      obtain ⟨before, hrun, hstep'⟩ := run_take_of_succ hop h
      rw [take_add_one, hop]
      exact hstep n before σ op hrun hop hstep' (ih before hrun)

end State

theorem AllOpened.step (h : AllOpened σ.files)
    (hleak : ∀ path flags host, op = .kernelOpen path flags host → leaks path flags = false)
    (hstep : σ.step op = some τ) : AllOpened τ.files := by
  cases op with
  | kernelOpen path flags host =>
    obtain ⟨rfl, hexit⟩ := after_eq_some hstep
    have hspec := kernelOpen_spec σ.files σ.calls path flags host
    have hnoleak := hleak path flags host rfl
    revert hexit
    generalize kernelOpen σ.files σ.calls path flags host = result at hspec ⊢
    intro hexit
    cases hspec with
    | opened d file m_files' hopens hleak' hd hopened hid hget =>
      intro e found hfound
      rw [hget] at hfound
      split_ifs at hfound
      · rwa [← some.inj hfound]
      · exact h e found hfound
    | failed error m_files' hopens hleak' hget =>
      intro e found hfound
      rw [hget] at hfound
      exact h e found hfound
    | leaked file m_files' hopens hleak' hopened hget =>
      rw [hnoleak] at hleak'
      cases hleak'
    | exit reason m_files' hopens hleak' hreason => exact absurd rfl (hexit reason)
  | kernelClose d closed =>
    obtain ⟨rfl, -⟩ := after_eq_some hstep
    rcases kernelClose_files σ.network σ.files d closed with
      ⟨file, -, -, -, -, hget⟩ | ⟨-, heq⟩
    · intro e found hfound
      rw [hget] at hfound
      split_ifs at hfound
      exact h e found hfound
    · rwa [heq]
  | allocSocketFd | socketClose | epollCreate | epollDestroy => exact (after_eq_some hstep).1 ▸ h

theorem openSafe_iff (m_files : Files) (id : ℕ) (path : Option String) (flags : BitVec 32)
    (host : HostAnswers) :
    OpenSafe m_files id (kernelOpen m_files id path flags host) ↔ leaks path flags = false := by
  have hnone := (createDescriptor_spec m_files id).2.1
  have hspec := kernelOpen_spec m_files id path flags host
  generalize kernelOpen m_files id path flags host = result at hspec
  rcases hspec with
    ⟨d, file, m_files', hopens, hleak, hd, hopened, hid, hget⟩ |
    ⟨error, m_files', hopens, hleak, hget⟩ | ⟨file, m_files', hopens, hleak, hopened, hget⟩ |
    ⟨reason, m_files', hopens, hleak, hreason⟩
  · rw [hleak]
    exact ⟨fun _ => rfl, fun _ => ⟨hd ▸ hnone, file, hopened, hid, hget⟩⟩
  · rw [hleak]
    exact ⟨fun _ => rfl, fun _ => hget⟩
  · rw [hleak]
    refine ⟨fun hsame => ?_, by simp⟩
    have := hsame (createDescriptor m_files id).1
    rw [hget, if_pos rfl, hnone] at this
    cases this
  · rw [hleak]
    exact ⟨fun _ => rfl, fun _ => trivial⟩

/-- **The table of descriptors.** Over every sequence of calls, the table is consistent and
every call of `KernelOpen` safe iff no call opens a file for reading that it is to truncate. -/
theorem descriptors_consistent (ops : List Op) :
    (∀ n σ, State.run (ops.take n) = some σ →
        Consistent σ ∧ ∀ path flags host, ops[n]? = some (.kernelOpen path flags host) →
          OpenSafe σ.files σ.calls (kernelOpen σ.files σ.calls path flags host)) ↔
      ∀ n σ path flags host, State.run (ops.take n) = some σ →
        ops[n]? = some (.kernelOpen path flags host) → leaks path flags = false := by
  constructor
  · intro hall n σ path flags host hrun hop
    exact (openSafe_iff _ _ _ _ host).mp ((hall n σ hrun).2 path flags host hop)
  · intro hleak n σ hrun
    have hopened : AllOpened σ.files := by
      refine State.invariant_of_step (fun _ σ => AllOpened σ.files) ?_ ?_ n σ hrun
      · intro d file hfile
        rw [State.init, getFile] at hfile
        split at hfile <;> simp at hfile
      · intro m before τ op hbefore hop hstep h
        exact h.step (fun path flags host heq => hleak m before path flags host hbefore
          (heq ▸ hop)) hstep
    exact ⟨hopened.consistent, fun path flags host hop =>
      (openSafe_iff _ _ _ _ host).mpr (hleak n σ path flags host hrun hop)⟩

/-- Opens a path for reading with the flag that truncates. -/
def truncatingOpen : Op :=
  .kernelOpen (some "/app0/x") 0x400#32
    { real_name := "x", dir_exist := false, file_exist := true, dents := [], created := true,
      opened := true, truncated := true, invalid := false }

/-- **One such call** fails, and then number 3 has a file that was never opened: reading from
it stops the process. -/
theorem truncatingOpen_leaks : ∃ σ, State.run [truncatingOpen] = some σ ∧
    (kernelOpen [] 0 (some "/app0/x") 0x400#32
      { real_name := "x", dir_exist := false, file_exist := true, dents := [], created := true,
        opened := true, truncated := true, invalid := false }).1 = .failed .eacces ∧
    (∃ file, getFile σ.files 3 = some file ∧ file.opened = false) ∧
    kernelRead σ.network σ.files 3 true 1 = .exit .notOpened ∧ ¬ Consistent σ := by
  refine ⟨_, rfl, by decide, ⟨_, rfl, rfl⟩, ?_, fun h => ?_⟩
  · decide
  · exact h.read 3 true 1 (by decide)

end MagnusPS5.Kernel.FileSystem
