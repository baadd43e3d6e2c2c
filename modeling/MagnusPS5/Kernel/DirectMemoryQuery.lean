/-
`KernelDirectMemoryQuery` (`memory.cpp`): which run of allocated direct memory holds
an offset, or comes next after it.

A caller lists the whole direct memory by asking with the find-next flag from offset
zero and going on from the end of each answer. The answers are the allocated bytes
cut where the memory type changes: every one of a single type, in order, and no two
of one type that touch. When the last block ends below the size one more answer
follows, the empty run at the size, which is how the kernel says that nothing is left.
-/
import MagnusPS5.Kernel.PhysicalMemorySpec

namespace MagnusPS5.Kernel

open Lib
open Spanned (lo hi)
open List Nat

/-! ## The query -/

abbrev KERNEL_ERROR_EACCES : ℤ := -2147352563

abbrev KERNEL_ERROR_EINVAL : ℤ := -2147352554

/-- `QueryInfo`. Its offsets are `int64_t`; the direct memory is far smaller than
that, so the casts of block ends keep their values. -/
structure QueryInfo where
  start : ℤ
  end_ : ℤ
  memory_type : ℤ
  deriving DecidableEq

abbrev sizeofQueryInfo : ℕ := 24

namespace PhysicalMemory

/-- The blocks from the iterator `current` on: from the block that holds the offset,
or from the first one behind it. -/
def currentBlocks (blocks : List AllocatedBlock) (offset : ℕ) : List AllocatedBlock :=
  let current := blocks.dropWhile fun b => b.start_addr ≤ offset
  match (blocks.takeWhile fun b => b.start_addr ≤ offset).getLast? with
  | none => current
  | some previous =>
    if offset < previous.start_addr + previous.size then previous :: current else current

/-- The loop over `following`: the end of the run, while blocks of its type touch it. -/
def mergeFollowing (memory_type : ℤ) (end_ : ℕ) : List AllocatedBlock → ℕ
  | [] => end_
  | following :: rest =>
    if following.start_addr = end_ ∧ following.memory_type = memory_type then
      mergeFollowing memory_type (end_ + following.size) rest
    else end_

/-- `KernelDirectMemoryQuery`, with what it writes to `*info` or its error. `has_info`
is `info != nullptr`. -/
def directMemoryQuery (flexible_memory_size : ℕ) (m : PhysicalMemory) (offset flags : ℤ)
    (has_info : Bool) (info_size : ℕ) : Except ℤ QueryInfo :=
  if offset < 0 ∨ (flags ≠ 0 ∧ flags ≠ 1) ∨ info_size ≠ sizeofQueryInfo ∨ has_info = false then
    .error KERNEL_ERROR_EINVAL
  else
    let offset := offset.toNat
    -- nothing is found at the end of the blocks
    let missing : Except ℤ QueryInfo :=
      if flags = 1 ∧ offset < Size flexible_memory_size then
        .ok ⟨Size flexible_memory_size, Size flexible_memory_size, 0⟩
      else .error KERNEL_ERROR_EACCES
    match currentBlocks m.m_physical offset with
    | [] => missing
    | block :: following =>
      if flags = 0 ∧ (offset < block.start_addr ∨ block.start_addr + block.size ≤ offset) then
        missing
      else
        .ok ⟨block.start_addr,
          mergeFollowing block.memory_type (block.start_addr + block.size) following,
          block.memory_type⟩

/-- The answers of the query with the find-next flag from an offset on, each one asked
for at the end of the one before, until the query fails. There is no result when the
fuel runs out before that. -/
def enumerate (flexible_memory_size : ℕ) (m : PhysicalMemory) :
    (fuel : ℕ) → (offset : ℤ) → Option (List QueryInfo)
  | 0, _ => none
  | fuel + 1, offset =>
    match directMemoryQuery flexible_memory_size m offset 1 true sizeofQueryInfo with
    | .error _ => some []
    | .ok info => (enumerate flexible_memory_size m fuel info.end_).map (info :: ·)

/-- Two blocks of one type that touch, a third of another type, and the end marker. -/
example : enumerate 0x1c000000 ⟨[allocatedBlock 0 8 3 false, allocatedBlock 8 8 3 true,
      allocatedBlock 16 8 5 false], [], []⟩ 4 0 =
    some [⟨0, 16, 3⟩, ⟨16, 24, 5⟩, ⟨0x344000000, 0x344000000, 0⟩] := by
  decide

/-! ## Where the query starts -/

variable {done rest : List AllocatedBlock}

theorem currentBlocks_of_boundary {x : ℕ} (ho : Ordered (done ++ rest)) (hp : Proper (done ++ rest))
    (hdone : ∀ b ∈ done, hi b ≤ x) (hrest : ∀ b ∈ rest, x ≤ lo b) :
    currentBlocks (done ++ rest) x = rest := by
  obtain ⟨-, hor, -⟩ := ordered_append.mp ho
  obtain ⟨hpd, hpr⟩ := proper_append.mp hp
  have hstart : ∀ b ∈ done, (decide (b.start_addr ≤ x)) = true := by
    intro b hb
    have h2 : b.start_addr + b.size ≤ x := hdone b hb
    rw [decide_eq_true_eq]
    omega
  unfold currentBlocks
  rw [takeWhile_append_of_pos hstart, dropWhile_append_of_pos hstart]
  have hnone : rest.takeWhile (fun b => decide (b.start_addr ≤ x)) = [] →
      rest.dropWhile (fun b => decide (b.start_addr ≤ x)) = rest →
      (match (done ++ rest.takeWhile fun b => decide (b.start_addr ≤ x)).getLast? with
        | none => rest.dropWhile fun b => decide (b.start_addr ≤ x)
        | some previous =>
          if x < previous.start_addr + previous.size then
            previous :: rest.dropWhile fun b => decide (b.start_addr ≤ x)
          else rest.dropWhile fun b => decide (b.start_addr ≤ x)) = rest := by
    intro htake hdrop
    rw [htake, hdrop, append_nil]
    split
    · rfl
    next previous hlast =>
      -- the block before the position ends at it at the latest
      have hle : previous.start_addr + previous.size ≤ x :=
        hdone previous (mem_of_getLast? hlast)
      rw [if_neg (by omega)]
  cases rest with
  | nil => exact hnone rfl rfl
  | cons b rest =>
    by_cases hb : b.start_addr ≤ x
    · -- the next block starts right here, and the search has passed it
      obtain ⟨hafter, -⟩ := ordered_cons.mp hor
      have hsize : b.start_addr < b.start_addr + b.size := hpr b (.head _ ..)
      have hbx : x ≤ b.start_addr := hrest b (.head _ ..)
      have hbehind : ∀ c ∈ rest, ¬ (decide (c.start_addr ≤ x)) = true := by
        intro c hc
        have hle : b.start_addr + b.size ≤ c.start_addr := hafter c hc
        rw [decide_eq_true_eq]
        omega
      have hcut : rest.takeWhile (fun c => decide (c.start_addr ≤ x)) = [] ∧
          rest.dropWhile (fun c => decide (c.start_addr ≤ x)) = rest := by
        cases rest with
        | nil => exact ⟨rfl, rfl⟩
        | cons c rest =>
          have hc := hbehind c (.head _ ..)
          exact ⟨takeWhile_cons_of_neg hc, dropWhile_cons_of_neg hc⟩
      rw [takeWhile_cons_of_pos (by simpa using hb),
        dropWhile_cons_of_pos (by simpa using hb), hcut.1, hcut.2,
        getLast?_append_of_ne_nil _ (cons_ne_nil _ _), getLast?_singleton]
      exact if_pos (by omega)
    · exact hnone (takeWhile_cons_of_neg (by simpa using hb))
        (dropWhile_cons_of_neg (by simpa using hb))

/-! ## How far a run goes -/

/-- The loop takes the blocks of the type that touch the run, one after another, and
stops before the first one that does not: what it leaves starts behind the run, and
has another type if it starts right there. -/
theorem mergeFollowing_spec (memory_type : ℤ) {following : List AllocatedBlock} {end_ : ℕ}
    (ho : Ordered following) (hp : Proper following) (hfrom : ∀ b ∈ following, end_ ≤ lo b) :
    ∃ group rest, following = group ++ rest ∧
      end_ ≤ mergeFollowing memory_type end_ following ∧
      (∀ b ∈ group, b.memory_type = memory_type ∧
        hi b ≤ mergeFollowing memory_type end_ following) ∧
      (∀ y, end_ ≤ y → y < mergeFollowing memory_type end_ following → Occupied group y) ∧
      (∀ b ∈ rest, mergeFollowing memory_type end_ following ≤ lo b) ∧
      ∀ b ∈ rest, lo b = mergeFollowing memory_type end_ following →
        b.memory_type ≠ memory_type := by
  induction following generalizing end_ with
  | nil =>
    refine ⟨[], [], rfl, le_refl _, by simp, ?_, by simp, by simp⟩
    intro y h1 h2
    exact absurd (lt_of_lt_of_le h2 h1) (lt_irrefl _)
  | cons b following ih =>
    obtain ⟨hafter, hof⟩ := ordered_cons.mp ho
    obtain ⟨hpb, hpf⟩ := proper_cons.mp hp
    unfold mergeFollowing
    by_cases hb : b.start_addr = end_ ∧ b.memory_type = memory_type
    · rw [if_pos hb]
      obtain ⟨hstart, htype⟩ := hb
      have hend : end_ + b.size = hi b := by
        rw [← hstart]
        rfl
      obtain ⟨group, rest, hsplit, hle, hgroup, hcover, hrest, hnext⟩ :=
        @ih (end_ + b.size) hof hpf (by rw [hend]; exact hafter)
      refine ⟨b :: group, rest, by rw [hsplit, cons_append], by omega, ?_, ?_, hrest, hnext⟩
      · intro c hc
        rcases mem_cons.mp hc with rfl | hc
        · exact ⟨htype, hend ▸ hle⟩
        · exact hgroup c hc
      · intro y h1 h2
        rw [occupied_cons]
        by_cases hy : y < end_ + b.size
        · exact .inl ⟨hstart.le.trans h1, hend ▸ hy⟩
        · exact .inr (hcover y (Nat.le_of_not_lt hy) h2)
    · rw [if_neg hb]
      refine ⟨[], b :: following, rfl, le_refl _, by simp, ?_, hfrom, ?_⟩
      · intro y h1 h2
        exact absurd (lt_of_lt_of_le h2 h1) (lt_irrefl _)
      · intro c hc hstart
        rcases mem_cons.mp hc with rfl | hc
        · exact fun htype => hb ⟨hstart, htype⟩
        · -- only the first block can start at the end of the run
          have h1 := hafter c hc
          have h2 := hfrom b (.head _ ..)
          omega

/-! ## What the answers say -/

/-- The byte lies in the answered run. -/
def QueryInfo.Holds (info : QueryInfo) (y : ℕ) : Prop := info.start ≤ y ∧ (y : ℤ) < info.end_

/-- The answers list the blocks: they go up, cover the bytes of the blocks and no
others, each has the type of every block in it, and those that touch differ in type. -/
structure Lists (blocks : List AllocatedBlock) (runs : List QueryInfo) : Prop where
  le : ∀ r ∈ runs, 0 ≤ r.start ∧ r.start ≤ r.end_
  sorted : runs.Pairwise fun a b => a.end_ ≤ b.start
  cover : ∀ y, Occupied blocks y ↔ ∃ r ∈ runs, QueryInfo.Holds r y
  typed : ∀ r ∈ runs, ∀ b ∈ blocks, ∀ y, Covers b y → QueryInfo.Holds r y →
    b.memory_type = r.memory_type
  touching : runs.Pairwise fun a b => a.end_ = b.start → a.memory_type ≠ b.memory_type

theorem lists_nil (runs : List QueryInfo) (h : runs = [] ∨ ∃ size : ℕ, runs = [⟨size, size, 0⟩]) :
    Lists [] runs := by
  have hempty : ∀ r ∈ runs, 0 ≤ r.start ∧ r.start = r.end_ := by
    rcases h with rfl | ⟨size, rfl⟩
    · simp
    · simp
  refine ⟨fun r hr => ⟨(hempty r hr).1, (hempty r hr).2.le⟩, ?_, ?_, by simp, ?_⟩
  · rcases h with rfl | ⟨size, rfl⟩ <;> simp
  · intro y
    refine ⟨fun hy => absurd hy (occupied_nil y), ?_⟩
    rintro ⟨r, hr, h1, h2⟩
    have := (hempty r hr).2
    omega
  · rcases h with rfl | ⟨size, rfl⟩ <;> simp

/-- One answer in front of the answers for the blocks behind it. The run is `group`
and the block before it; what is listed after it starts at its end at the earliest,
and there with another type. -/
theorem Lists.cons {group rest : List AllocatedBlock} {runs : List QueryInfo} {start end_ : ℕ}
    {memory_type : ℤ} (h : Lists rest runs) (hle : start < end_)
    (hgroup : ∀ b ∈ group, b.memory_type = memory_type ∧ start ≤ lo b ∧ hi b ≤ end_)
    (hcover : ∀ y, start ≤ y → y < end_ → Occupied group y) (hrest : ∀ b ∈ rest, end_ ≤ lo b)
    (hnext : ∀ b ∈ rest, lo b = end_ → b.memory_type ≠ memory_type)
    (hruns : ∀ r ∈ runs, (end_ : ℤ) ≤ r.start ∧ (r.start = r.end_ → (end_ : ℤ) < r.start)) :
    Lists (group ++ rest) (⟨start, end_, memory_type⟩ :: runs) where
  le := by
    rw [forall_mem_cons]
    refine ⟨⟨by simp, ?_⟩, h.le⟩
    show (start : ℤ) ≤ end_
    omega
  sorted := pairwise_cons.mpr ⟨fun r hr => (hruns r hr).1, h.sorted⟩
  cover := by
    intro y
    rw [occupied_append, exists_mem_cons_iff, h.cover y]
    apply or_congr _ .rfl
    unfold QueryInfo.Holds
    rw [Int.ofNat_le, Int.ofNat_lt]
    constructor
    · rintro ⟨b, hb, hy1, hy2⟩
      obtain ⟨-, h1, h2⟩ := hgroup b hb
      omega
    · rintro ⟨h1, h2⟩
      exact hcover y h1 h2
  typed := by
    intro r hr b hb y hby hry
    rcases mem_cons.mp hr with rfl | hr
    · rcases mem_append.mp hb with hb | hb
      · exact (hgroup b hb).1
      · -- a block of the rest starts where the run has ended
        have h1 := hrest b hb
        have h2 : (y : ℤ) < end_ := hry.2
        have h3 := hby.1
        omega
    · rcases mem_append.mp hb with hb | hb
      · have h1 := (hgroup b hb).2.2
        have h2 := (hruns r hr).1
        have h3 := hry.1
        have h4 := hby.2
        omega
      · exact h.typed r hr b hb y hby hry
  touching := by
    refine pairwise_cons.mpr ⟨?_, h.touching⟩
    intro r hr hstart
    -- the run that starts at the end is not the end marker, so some block of the rest is in it
    have hstart : (end_ : ℤ) = r.start := hstart
    have hne : r.start ≠ r.end_ := fun he => by
      have := (hruns r hr).2 he
      omega
    have hrle := (h.le r hr).2
    have hholds : QueryInfo.Holds r end_ := by
      unfold QueryInfo.Holds
      omega
    obtain ⟨b, hb, hby⟩ := (h.cover end_).mpr ⟨r, hr, hholds⟩
    have hblock : lo b = end_ := le_antisymm hby.1 (hrest b hb)
    have htype := h.typed r hr b hb end_ hby hholds
    exact fun he => hnext b hb hblock (htype.trans he.symm)

/-! ## The enumeration -/

variable {flexible_memory_size : ℕ} {m : PhysicalMemory}

theorem directMemoryQuery_of_boundary (flexible_memory_size : ℕ)
    {x : ℕ} (hm : m.m_physical = done ++ rest) (ho : Ordered m.m_physical) (hp : Proper m.m_physical)
    (hdone : ∀ b ∈ done, hi b ≤ x) (hrest : ∀ b ∈ rest, x ≤ lo b) :
    directMemoryQuery flexible_memory_size m x 1 true sizeofQueryInfo =
      match rest with
      | [] =>
        if x < Size flexible_memory_size then
          .ok ⟨Size flexible_memory_size, Size flexible_memory_size, 0⟩
        else .error KERNEL_ERROR_EACCES
      | block :: following =>
        .ok ⟨block.start_addr,
          mergeFollowing block.memory_type (block.start_addr + block.size) following,
          block.memory_type⟩ := by
  have hcurrent : currentBlocks m.m_physical x = rest := by
    rw [hm] at ho hp ⊢
    exact currentBlocks_of_boundary ho hp hdone hrest
  unfold directMemoryQuery
  rw [if_neg (by simp)]
  simp only [Int.toNat_natCast, hcurrent]
  cases rest with
  | nil | cons => simp

/-- Behind the last block the query answers with the end marker, unless the position is
the size already, and then fails. -/
theorem enumerate_nothing_left {x fuel : ℕ} (ho : Ordered m.m_physical)
    (hp : Proper m.m_physical) (hdone : ∀ b ∈ m.m_physical, hi b ≤ x) (hfuel : 2 ≤ fuel) :
    enumerate flexible_memory_size m fuel x =
      some (if x < Size flexible_memory_size then
        [⟨Size flexible_memory_size, Size flexible_memory_size, 0⟩] else []) := by
  have hquery : ∀ {y : ℕ}, (∀ b ∈ m.m_physical, hi b ≤ y) → _ := fun {y} hy =>
    directMemoryQuery_of_boundary flexible_memory_size (x := y) (append_nil _).symm
      ho hp hy (fun b hb => nomatch hb)
  obtain ⟨fuel, rfl⟩ := Nat.exists_eq_add_of_le' hfuel
  rw [enumerate, hquery hdone]
  by_cases hx : x < Size flexible_memory_size
  · -- the end marker sends the next query to the size
    have hsize : ∀ b ∈ m.m_physical, hi b ≤ Size flexible_memory_size :=
      fun b hb => (hdone b hb).trans hx.le
    simp only [if_pos hx]
    rw [enumerate, hquery hsize]
    simp
  · simp only [if_neg hx]

/-- From a position that no block straddles the query runs through the blocks behind
it, each answer ending at the next such position. The induction is on the number of
blocks that are left; two more queries see the end marker and fail. -/
theorem enumerate_spec (flexible_memory_size : ℕ) (ho : Ordered m.m_physical)
    (hp : Proper m.m_physical) (n : ℕ) :
    ∀ {done rest : List AllocatedBlock} {x : ℕ}, rest.length ≤ n →
      m.m_physical = done ++ rest → (∀ b ∈ done, hi b ≤ x) → (∀ b ∈ rest, x ≤ lo b) →
      ∃ runs,
        (∀ fuel, rest.length + 2 ≤ fuel →
          enumerate flexible_memory_size m fuel x = some runs) ∧
        Lists rest runs ∧
        ∀ r ∈ runs, (x : ℤ) ≤ r.start ∧ (r.start = r.end_ → (x : ℤ) < r.start) := by
  induction n with
  | zero =>
    intro done rest x hn hm hdone hrest
    obtain rfl := eq_nil_of_length_eq_zero (le_zero.mp hn)
    rw [append_nil] at hm
    refine ⟨_, fun fuel hfuel => enumerate_nothing_left ho hp (hm ▸ hdone) hfuel, ?_, ?_⟩
    · apply lists_nil
      split
      · exact .inr ⟨_, rfl⟩
      · exact .inl rfl
    · split
      next hx =>
        intro r hr
        obtain rfl := mem_singleton.mp hr
        show (x : ℤ) ≤ (Size flexible_memory_size : ℕ) ∧ (_ → (x : ℤ) < (Size flexible_memory_size : ℕ))
        omega
      · simp
  | succ n ih =>
    intro done rest x hn hm hdone hrest
    cases rest with
    | nil => exact ih (zero_le n) hm hdone hrest
    | cons block following =>
      have hquery := directMemoryQuery_of_boundary flexible_memory_size hm ho hp hdone hrest
      obtain ⟨-, hor, hcross⟩ := ordered_append.mp (hm ▸ ho)
      obtain ⟨-, hpr⟩ := proper_append.mp (hm ▸ hp)
      obtain ⟨hafter, hof⟩ := ordered_cons.mp hor
      obtain ⟨hpb, hpf⟩ := proper_cons.mp hpr
      obtain ⟨group, rest, hsplit, hle, hgroup, hcover, hbehind, hnext⟩ :=
        mergeFollowing_spec block.memory_type hof hpf hafter
      -- the end of the run is again a position that no block straddles
      generalize hend : mergeFollowing block.memory_type (hi block) following = end_ at *
      have hpos : lo block < end_ := hpb.trans_le hle
      have hdone' : ∀ b ∈ done ++ block :: group, hi b ≤ end_ := by
        intro b hb
        rcases mem_append.mp hb with hb | hb
        · exact (hcross b hb block (.head _ ..)).trans hpos.le
        · rcases mem_cons.mp hb with rfl | hb
          · exact hle
          · exact (hgroup b hb).2
      have hm' : m.m_physical = (done ++ block :: group) ++ rest := by
        rw [hm, hsplit, append_assoc, cons_append]
      have hlength : rest.length ≤ following.length := by
        rw [hsplit, length_append]
        exact le_add_left _ _
      obtain ⟨runs, hruns, hlists, hfrom⟩ := ih (hlength.trans (le_of_succ_le_succ hn))
        hm' hdone' hbehind
      have hx : x ≤ lo block := hrest block (.head _ ..)
      refine ⟨⟨lo block, end_, block.memory_type⟩ :: runs, ?_, ?_, ?_⟩
      · intro fuel hfuel
        obtain ⟨fuel, rfl⟩ := exists_eq_succ_of_ne_zero (by omega : fuel ≠ 0)
        rw [length_cons] at hfuel
        rw [enumerate, hquery]
        simp only
        rw [show mergeFollowing block.memory_type (block.start_addr + block.size) following =
          end_ from hend, hruns fuel (by omega)]
        rfl
      · rw [hsplit, ← cons_append]
        apply hlists.cons hpos _ _ hbehind hnext hfrom
        · intro b hb
          rcases mem_cons.mp hb with rfl | hb
          · exact ⟨rfl, le_refl _, hle⟩
          · have hb' := hafter b (hsplit ▸ mem_append_left _ hb)
            exact ⟨(hgroup b hb).1, hpb.le.trans hb', (hgroup b hb).2⟩
        · intro y h1 h2
          rw [occupied_cons]
          by_cases hy : y < hi block
          · exact .inl ⟨h1, hy⟩
          · exact .inr (hcover y (Nat.le_of_not_lt hy) h2)
      · intro r hr
        rcases mem_cons.mp hr with rfl | hr
        · show (x : ℤ) ≤ (lo block : ℕ) ∧ ((lo block : ℤ) = (end_ : ℕ) → (x : ℤ) < (lo block : ℕ))
          omega
        · have := (hfrom r hr).1
          omega

end PhysicalMemory

open PhysicalMemory in
/-- **Enumerating the direct memory is complete.** After any sequence of allocations and
releases, asking with the find-next flag from offset zero and going on from the end of
each answer comes to an end, and the answers list the allocated blocks. -/
theorem directMemoryQuery_enumerates {flexible_memory_size : ℕ}
    (hsize : flexible_memory_size < TotalSize) (ops : List Op) (hops : ∀ op ∈ ops, op.Valid) :
    ∃ m runs, run flexible_memory_size ops = some m ∧
      (∀ fuel, m.m_physical.length + 2 ≤ fuel →
        enumerate flexible_memory_size m fuel 0 = some runs) ∧
      Lists m.m_physical runs := by
  obtain ⟨m, hrun, hinv⟩ := run_spec (inv_init hsize) hops
  obtain ⟨runs, hruns, hlists, -⟩ := enumerate_spec flexible_memory_size (x := 0)
    hinv.ordered hinv.proper m.m_physical.length le_rfl (List.nil_append _).symm
    (fun b hb => nomatch hb) (fun b _ => Nat.zero_le _)
  exact ⟨m, runs, hrun, hruns, hlists⟩

/-- Two allocations of one type with a released hole, and a third of another type. -/
theorem directMemoryQuery_enumerates_hole :
    ∃ m runs, PhysicalMemory.run 0x1c000000 [.alloc 0 0x100000 0x40000 0x4000 3 false,
        .release 0x10000 0x10000, .alloc 0 0x100000 0x10000 0x10000 5 true] = some m ∧
      (∀ fuel, m.m_physical.length + 2 ≤ fuel →
        PhysicalMemory.enumerate 0x1c000000 m fuel 0 = some runs) ∧
      PhysicalMemory.Lists m.m_physical runs :=
  directMemoryQuery_enumerates (by decide) _ (by decide)

end MagnusPS5.Kernel
