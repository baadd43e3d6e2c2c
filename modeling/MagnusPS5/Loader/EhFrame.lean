/-
The function starts that a module lists in its `.eh_frame_hdr` (`redZonePatcher.cpp`).

Every field has an encoding: a format, a base and a flag that says that the value stands
elsewhere. The cursor moves over the fields, and a base can be the field's own address. The
entries are compared with fields at fixed places behind the header, and all reads with the
header; only the flag `DW_EH_PE_INDIRECT` leads out of it.
-/
import MagnusPS5.Kernel.Basic
import MagnusPS5.Lib.Reading
import Mathlib

namespace MagnusPS5.Loader.EhFrame

open Kernel Lib Reader.Meets List

abbrev Byte := BitVec 8

def DW_EH_PE_PCREL : Byte := 0x10

def DW_EH_PE_DATAREL : Byte := 0x30

def DW_EH_PE_INDIRECT : Byte := 0x80

def DW_EH_PE_OMIT : Byte := 0xff

section Decoder

variable (memory : ℕ → Byte)

/-- What `memcpy` makes of bytes, the lowest first. -/
def littleEndian (address : ℕ) : ℕ → ℕ
  | 0 => 0
  | n + 1 => (memory address).toNat + 256 * littleEndian (address + 1) n

/-- `ReadEhValue`, with the size of the type. -/
def readEhValue (stop size : ℕ) : Reader ℕ := fun cursor =>
  if subU64 stop cursor < size then ([], none)
  else ([⟨cursor, size⟩], some (littleEndian memory cursor size, cursor + size))

variable (encoding : Byte)

/-- The formats: how many bytes, and whether they are signed. -/
def format : Option (ℕ × Bool) :=
  match (encoding &&& 0x0f).toNat with
  | 0x00 => some (8, false)
  | 0x02 => some (2, false)
  | 0x03 => some (4, false)
  | 0x04 => some (8, false)
  | 0x0a => some (2, true)
  | 0x0b => some (4, true)
  | 0x0c => some (8, true)
  | _ => none

def applicationBase (field_address datarel_base : ℕ) : Option ℕ :=
  let application := encoding &&& 0x70
  if application = 0 then some 0
  else if application = DW_EH_PE_PCREL then some field_address
  else if application = DW_EH_PE_DATAREL then some datarel_base
  else none

/-- The conversion of a signed value to `uint64_t`. -/
def signExtend (size value : ℕ) : ℕ :=
  if value < 2 ^ (8 * size - 1) then value else value + 2 ^ 64 - 2 ^ (8 * size)

/-- `decoded`, before the flag: a signed sum wraps around, an unsigned one fails. -/
def baseSum (field_address datarel_base size : ℕ) (is_signed : Bool) (value : ℕ) : Option ℕ :=
  (applicationBase encoding field_address datarel_base).bind fun base =>
    if is_signed then some ((base + signExtend size value) % 2 ^ 64)
    else if value > UINT64_MAX - base then none
    else some (base + value)

def isIndirect : Bool := encoding &&& DW_EH_PE_INDIRECT ≠ 0

/-- The end of `ReadEncodedEhPointer`: with the flag the pointer stands at the sum. -/
def follow : Option ℕ → Reader ℕ
  | none => Reader.fail
  | some decoded =>
    if isIndirect encoding then Reader.peek ⟨decoded, 8⟩ (littleEndian memory decoded 8)
    else pure decoded

def readEncodedEhPointer (stop : ℕ) (encoding : Byte) (datarel_base : ℕ) : Reader ℕ :=
  fun field_address =>
    if encoding = DW_EH_PE_OMIT then ([], none)
    else
      match format encoding with
      | none => ([], none)
      | some (size, is_signed) =>
        (readEhValue memory stop size >>= fun value =>
          follow memory encoding
            (baseSum encoding field_address datarel_base size is_signed value)) field_address

/-- The fields before the table: the number of entries and the encoding of the table, or
nothing where one of them is omitted. -/
def readHeader (stop datarel_base : ℕ) : Reader (Option (ℕ × Byte)) := do
  let version ← readEhValue memory stop 1
  let eh_frame_encoding ← readEhValue memory stop 1
  let count_encoding ← readEhValue memory stop 1
  let table_encoding ← readEhValue memory stop 1
  if version ≠ 1 then Reader.fail
  else
    let _ ← readEncodedEhPointer memory stop (BitVec.ofNat 8 eh_frame_encoding) datarel_base
    if BitVec.ofNat 8 count_encoding = DW_EH_PE_OMIT ∨
        BitVec.ofNat 8 table_encoding = DW_EH_PE_OMIT then pure none
    else
      let fde_count ←
        readEncodedEhPointer memory stop (BitVec.ofNat 8 count_encoding) datarel_base
      pure (some (fde_count, BitVec.ofNat 8 table_encoding))

/-- One round of the loop: `function_start`. -/
def readEntry (stop : ℕ) (table_encoding : Byte) (datarel_base : ℕ) : Reader ℕ := do
  let function_start ← readEncodedEhPointer memory stop table_encoding datarel_base
  let _ ← readEncodedEhPointer memory stop table_encoding datarel_base
  pure function_start

/-- The loop, with what it reads, the result and `function_starts`. -/
def tableLoop (stop : ℕ) (table_encoding : Byte) (datarel_base : ℕ) :
    ℕ → List ℕ → ℕ → List Read × Bool × List ℕ
  | 0, function_starts, _ => ([], true, function_starts)
  | n + 1, function_starts, cursor =>
    match readEntry memory stop table_encoding datarel_base cursor with
    | (reads, none) => (reads, false, [])
    | (reads, some (function_start, next)) =>
      let rest := tableLoop stop table_encoding datarel_base n
        (function_starts ++ [function_start]) next
      (reads ++ rest.1, rest.2)

/-- `DecodeEhFrameFunctionStarts`, with what it reads. -/
def decodeEhFrameFunctionStarts (addr size : ℕ) : List Read × Bool × List ℕ :=
  if addr = 0 ∨ size < 4 ∨ size > UINT64_MAX - addr then ([], false, [])
  else
    match readHeader memory (addr + size) addr addr with
    | (reads, none) => (reads, false, [])
    | (reads, some (none, _)) => (reads, true, [])
    | (reads, some (some (fde_count, table_encoding), cursor)) =>
      if fde_count > size / 2 then (reads, false, [])
      else
        let table := tableLoop memory (addr + size) table_encoding addr fde_count [] cursor
        (reads ++ table.1, table.2)

/-! ## The fields of a header -/

def width : ℕ := ((format encoding).map Prod.fst).getD 0

/-- What a field says before the flag. -/
def directAt (datarel_base address : ℕ) : Option ℕ :=
  if encoding = DW_EH_PE_OMIT then none
  else
    (format encoding).bind fun (size, is_signed) =>
      baseSum encoding address datarel_base size is_signed (littleEndian memory address size)

/-- The pointer that a field encodes. -/
def pointerAt (datarel_base address : ℕ) : Option ℕ :=
  (directAt memory encoding datarel_base address).map fun decoded =>
    if isIndirect encoding then littleEndian memory decoded 8 else decoded

variable (addr size : ℕ)

def ehFrameEncoding : Byte := memory (addr + 1)

def countEncoding : Byte := memory (addr + 2)

def tableEncoding : Byte := memory (addr + 3)

/-- Where the number of entries stands. -/
def countField : ℕ := addr + 4 + width (ehFrameEncoding memory addr)

/-- Where the first entry stands; an entry is two fields. -/
def tableField : ℕ := countField memory addr + width (countEncoding memory addr)

def InHeader (read : Read) : Prop := addr ≤ read.address ∧ read.address + read.size ≤ addr + size

/-- The word that an indirect field of the header refers to. -/
def Referred (read : Read) : Prop :=
  ∃ encoding ∈ [ehFrameEncoding memory addr, countEncoding memory addr, tableEncoding memory addr],
    isIndirect encoding = true ∧ read.size = 8 ∧
      ∃ field, InHeader addr size ⟨field, width encoding⟩ ∧
        directAt memory encoding addr field = some read.address

end Decoder

section Fields

variable {memory : ℕ → Byte} {addr size cursor : ℕ} {encoding : Byte}

theorem readEhValue_meets {stop n : ℕ} (hcursor : cursor ≤ stop) (hstop : stop ≤ UINT64_MAX) :
    (readEhValue memory stop n).Meets cursor (fun read => read = ⟨cursor, n⟩ ∧ cursor + n ≤ stop)
      fun value next => value = littleEndian memory cursor n ∧ next = cursor + n ∧ next ≤ stop := by
  have hspan : subU64 stop cursor = stop - cursor := subU64_of_le hcursor hstop
  by_cases hshort : stop - cursor < n
  · simp [readEhValue, Reader.Meets, hspan, hshort]
  · have hnext : cursor + n ≤ stop := by omega
    simp [readEhValue, Reader.Meets, hspan, hshort, hnext]

/-- What a field may read. -/
def Allowed (memory : ℕ → Byte) (addr size : ℕ) (read : Read) : Prop :=
  InHeader addr size read ∨ Referred memory addr size read

/-- **A field**: the reads are allowed, the cursor moves by the width, and the pointer is the
one that the field encodes. -/
theorem readEncodedEhPointer_meets (hle : addr ≤ cursor) (hcursor : cursor ≤ addr + size)
    (hstop : addr + size ≤ UINT64_MAX) (hencoding : encoding ∈
      [ehFrameEncoding memory addr, countEncoding memory addr, tableEncoding memory addr]) :
    (readEncodedEhPointer memory (addr + size) encoding addr).Meets cursor
      (Allowed memory addr size)
      fun value next => next = cursor + width encoding ∧ next ≤ addr + size ∧
        pointerAt memory encoding addr cursor = some value := by
  by_cases homit : encoding = DW_EH_PE_OMIT
  · apply fail.congr
    unfold readEncodedEhPointer
    rw [if_pos homit]
    rfl
  cases hformat : format encoding with
  | none =>
    apply fail.congr
    unfold readEncodedEhPointer
    rw [if_neg homit, hformat]
    rfl
  | some result =>
    obtain ⟨n, is_signed⟩ := result
    have hwidth : width encoding = n := by
      unfold width
      rw [hformat]
      rfl
    have hdirect : directAt memory encoding addr cursor =
        baseSum encoding cursor addr n is_signed (littleEndian memory cursor n) := by
      unfold directAt
      rw [if_neg homit, hformat]
      rfl
    have hfield : (readEhValue memory (addr + size) n >>= fun value =>
        follow memory encoding (baseSum encoding cursor addr n is_signed value)).Meets cursor
          (Allowed memory addr size) fun value next => next = cursor + width encoding ∧
            next ≤ addr + size ∧ pointerAt memory encoding addr cursor = some value := by
      apply Reader.Meets.bind
      · apply (readEhValue_meets hcursor hstop).imp
        · intro read hread
          rw [hread.1]
          exact .inl ⟨hle, hread.2⟩
        · exact fun value next h => h
      · intro value next hvalue
        obtain ⟨rfl, rfl, hnext⟩ := hvalue
        rw [hwidth, pointerAt, hdirect]
        cases hsum : baseSum encoding cursor addr n is_signed (littleEndian memory cursor n) with
        | none => exact fail
        | some decoded =>
          rw [follow]
          by_cases hflag : isIndirect encoding = true
          · -- the word at the sum is read, wherever that is
            rw [if_pos hflag]
            apply peek
            · refine .inr ⟨encoding, hencoding, hflag, rfl, cursor, ⟨hle, ?_⟩, ?_⟩
              · rw [hwidth]
                exact hnext
              · rw [hdirect, hsum]
            · exact ⟨rfl, hnext, by rw [Option.map_some, if_pos hflag]⟩
          · rw [if_neg hflag]
            apply Reader.Meets.pure
            exact ⟨rfl, hnext, by rw [Option.map_some, if_neg hflag]⟩
    apply hfield.congr
    unfold readEncodedEhPointer
    rw [if_neg homit, hformat]

theorem littleEndian_one (address : ℕ) :
    BitVec.ofNat 8 (littleEndian memory address 1) = memory address := by
  apply BitVec.eq_of_toNat_eq
  simp [littleEndian]

theorem readByte_meets (hle : addr ≤ cursor) (hcursor : cursor ≤ addr + size)
    (hstop : addr + size ≤ UINT64_MAX) :
    (readEhValue memory (addr + size) 1).Meets cursor (Allowed memory addr size)
      fun value next => .ofNat 8 value = memory cursor ∧ next = cursor + 1 ∧
        next ≤ addr + size := by
  apply (readEhValue_meets hcursor hstop).imp
  · intro read hread
    rw [hread.1]
    exact .inl ⟨hle, hread.2⟩
  · intro value next h
    rw [h.1]
    exact ⟨littleEndian_one cursor, h.2⟩

/-- **The header**: the number of entries is the one at its place, and the cursor ends up at the
table. -/
theorem readHeader_meets (hstop : addr + size ≤ UINT64_MAX) :
    (readHeader memory (addr + size) addr).Meets addr (Allowed memory addr size)
      fun result next =>
        (result = none ∧ (countEncoding memory addr = DW_EH_PE_OMIT ∨
          tableEncoding memory addr = DW_EH_PE_OMIT)) ∨
        (∃ count, result = some (count, tableEncoding memory addr) ∧
          countEncoding memory addr ≠ DW_EH_PE_OMIT ∧ tableEncoding memory addr ≠ DW_EH_PE_OMIT ∧
          pointerAt memory (countEncoding memory addr) addr (countField memory addr) =
            some count ∧ next = tableField memory addr ∧ addr ≤ next ∧ next ≤ addr + size) := by
  apply bind (readByte_meets le_rfl (Nat.le_add_right _ _) hstop)
  rintro version next ⟨-, rfl, hnext⟩
  apply bind (readByte_meets (by omega) hnext hstop)
  rintro eh_frame_encoding next ⟨heh, rfl, hnext⟩
  apply bind (readByte_meets (by omega) hnext hstop)
  rintro count_encoding next ⟨hcount, rfl, hnext⟩
  apply bind (readByte_meets (by omega) hnext hstop)
  rintro table_encoding next ⟨htable, rfl, hnext⟩
  rw [heh, hcount, htable]
  by_cases hversion : version ≠ 1
  · rw [if_pos hversion]
    exact fail
  rw [if_neg hversion]
  apply bind (readEncodedEhPointer_meets (by omega) hnext hstop mem_cons_self)
  rintro ignored next ⟨rfl, hnext, -⟩
  by_cases homit : memory (addr + 1 + 1) = DW_EH_PE_OMIT ∨ memory (addr + 1 + 1 + 1) = DW_EH_PE_OMIT
  · rw [if_pos homit]
    apply Reader.Meets.pure
    exact .inl ⟨rfl, homit⟩
  · rw [if_neg homit]
    apply bind
      (readEncodedEhPointer_meets (by omega) hnext hstop
        (mem_cons_of_mem _ mem_cons_self))
    rintro count next ⟨rfl, hnext, hvalue⟩
    apply Reader.Meets.pure
    obtain ⟨hcount_omit, htable_omit⟩ := not_or.mp homit
    exact .inr ⟨count, rfl, hcount_omit, htable_omit, hvalue, rfl, by omega, hnext⟩

/-! ## The table -/

theorem readEntry_meets (hle : addr ≤ cursor) (hcursor : cursor ≤ addr + size)
    (hstop : addr + size ≤ UINT64_MAX) :
    (readEntry memory (addr + size) (tableEncoding memory addr) addr).Meets cursor
      (Allowed memory addr size)
      fun function_start next => next = cursor + 2 * width (tableEncoding memory addr) ∧
        next ≤ addr + size ∧
        pointerAt memory (tableEncoding memory addr) addr cursor = some function_start := by
  have hencoding : tableEncoding memory addr ∈
      [ehFrameEncoding memory addr, countEncoding memory addr, tableEncoding memory addr] := by
    simp
  apply bind (readEncodedEhPointer_meets hle hcursor hstop hencoding)
  rintro function_start next ⟨rfl, hnext, hstart⟩
  apply bind (readEncodedEhPointer_meets (by omega) hnext hstop hencoding)
  rintro ignored next ⟨rfl, hnext, -⟩
  apply Reader.Meets.pure
  exact ⟨by omega, hnext, hstart⟩

/-- **The loop**, from any cursor: what it appends are the fields at the next places. -/
theorem tableLoop_spec (hstop : addr + size ≤ UINT64_MAX) (n : ℕ) (function_starts : List ℕ)
    (hle : addr ≤ cursor) (hcursor : cursor ≤ addr + size) :
    let table := tableLoop memory (addr + size) (tableEncoding memory addr) addr n
      function_starts cursor
    (∀ read ∈ table.1, Allowed memory addr size read) ∧
      (table.2.1 = false → table.2.2 = []) ∧
      (table.2.1 = true → table.2.2.map some = function_starts.map some ++
        (range n).map fun k => pointerAt memory (tableEncoding memory addr) addr
          (cursor + k * (2 * width (tableEncoding memory addr)))) := by
  induction n generalizing function_starts cursor with
  | zero => simp [tableLoop]
  | succ n ih =>
    obtain ⟨hreads, hresult⟩ := @readEntry_meets memory _ _ _ hle hcursor hstop
    unfold tableLoop
    cases hentry : readEntry memory (addr + size) (tableEncoding memory addr) addr cursor with
    | mk reads result =>
      rw [hentry] at hreads hresult
      cases result with
      | none => exact ⟨hreads, fun _ => rfl, nofun⟩
      | some result =>
        obtain ⟨function_start, next⟩ := result
        obtain ⟨hnext, hend, hstart⟩ := hresult _ _ rfl
        obtain ⟨hmore, hfailed, hok⟩ := ih (function_starts ++ [function_start]) (by omega) hend
        refine ⟨fun read hread => ?_, hfailed, fun h => ?_⟩
        · rcases mem_append.mp hread with hread | hread
          · exact hreads read hread
          · exact hmore read hread
        · rw [hok h, range_succ_eq_map, map_cons, map_map, map_append,
            append_assoc, Nat.zero_mul, Nat.add_zero, hstart, hnext]
          refine congrArg (_ ++ ·) (congrArg (some function_start :: ·) ?_)
          apply map_congr_left
          intro k _
          apply congrArg (pointerAt memory (tableEncoding memory addr) addr)
          rw [Nat.succ_eq_add_one]
          ring

end Fields

/-- **Decoding a header**, of every address, size and content: what is read lies in the header
or is a word that an indirect field refers to; without success there are no function starts; with
it they are the first fields of the entries, as many as the header says, or none where the number
or the table is omitted. -/
theorem function_starts_decoded (memory : ℕ → Byte) (addr size : ℕ) :
    let decoded := decodeEhFrameFunctionStarts memory addr size
    (∀ read ∈ decoded.1, InHeader addr size read ∨ Referred memory addr size read) ∧
      (decoded.2.1 = false → decoded.2.2 = []) ∧
      (decoded.2.1 = true →
        if countEncoding memory addr = DW_EH_PE_OMIT ∨ tableEncoding memory addr = DW_EH_PE_OMIT
        then decoded.2.2 = []
        else ∃ count,
          pointerAt memory (countEncoding memory addr) addr (countField memory addr) = some count ∧
          decoded.2.2.map some = (List.range count).map fun k =>
            pointerAt memory (tableEncoding memory addr) addr
              (tableField memory addr + k * (2 * width (tableEncoding memory addr)))) := by
  unfold decodeEhFrameFunctionStarts
  by_cases hcheck : addr = 0 ∨ size < 4 ∨ size > UINT64_MAX - addr
  · rw [if_pos hcheck]
    exact ⟨fun read hread => absurd hread List.not_mem_nil, fun _ => rfl, fun h => by cases h⟩
  rw [if_neg hcheck]
  have hstop : addr + size ≤ UINT64_MAX := by omega
  obtain ⟨hreads, hresult⟩ := @readHeader_meets memory _ _ hstop
  cases hheader : readHeader memory (addr + size) addr addr with
  | mk reads result =>
    rw [hheader] at hreads hresult
    cases result with
    | none => exact ⟨hreads, fun _ => rfl, fun h => by cases h⟩
    | some result =>
      obtain ⟨fields, next⟩ := result
      rcases hresult _ _ rfl with
        ⟨rfl, homit⟩ | ⟨count, rfl, hcount, htable, hvalue, rfl, hle, hend⟩
      · refine ⟨hreads, fun h => (by cases h), fun _ => ?_⟩
        rw [if_pos homit]
      · dsimp only
        by_cases hbound : count > size / 2
        · rw [if_pos hbound]
          exact ⟨hreads, fun _ => rfl, fun h => by cases h⟩
        · rw [if_neg hbound]
          obtain ⟨hmore, hfailed, hok⟩ := tableLoop_spec hstop count [] hle hend
          refine ⟨fun read hread => ?_, hfailed, fun h => ?_⟩
          · rcases List.mem_append.mp hread with hread | hread
            · exact hreads read hread
            · exact hmore read hread
          · rw [if_neg (not_or.mpr ⟨hcount, htable⟩)]
            exact ⟨count, hvalue, hok h⟩

/-- A header whose pointer to `.eh_frame` is indirect, and one that says five entries but has no
table. -/
theorem function_starts_outside :
    (∃ memory, ∃ read ∈ (decodeEhFrameFunctionStarts memory 16 12).1, ¬ InHeader 16 12 read) ∧
      ∃ memory, (decodeEhFrameFunctionStarts memory 16 16).2 = (true, []) ∧
        pointerAt memory (countEncoding memory 16) 16 (countField memory 16) = some 5 := by
  refine ⟨⟨fun address => if address = 16 then 1 else if address = 17 then 0x82 else 0, ⟨0, 8⟩, ?_⟩,
    ⟨fun address => if address = 16 then 1 else if address = 17 then 0x02 else if address = 18 then
      0x02 else if address = 19 then 0xff else if address = 22 then 5 else 0, ?_⟩⟩
  · unfold InHeader
    decide
  · decide

end MagnusPS5.Loader.EhFrame
