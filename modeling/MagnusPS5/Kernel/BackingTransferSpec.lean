/-
What the transfers between a buffer and the backing file do, byte by byte.

An address shows a byte of the file, several addresses may show the same one. A read
returns what the addresses of its span show; a write is seen at every address that
shows a byte it wrote, in the span or not. Whether a call succeeds depends on the
table of views and, without the alias, on the windows that the host grants: the
checks before the first copy do not see a window that will be refused.
-/
import MagnusPS5.Kernel.BackingTransfer

namespace MagnusPS5.Kernel

open Lib
open Spanned (lo hi)
open FileAccess (Piece)
open Nat List Option MapEntry

/-! ## What the host decides -/

theorem forall_lt_add {p : ℕ → Prop} {m n : ℕ} :
    (∀ k < m + n, p k) ↔ (∀ k < m, p k) ∧ ∀ k < n, p (k + m) := by
  constructor
  · exact fun h => ⟨fun k hk => h k (by omega), fun k hk => h (k + m) (by omega)⟩
  · rintro ⟨h1, h2⟩ k hk
    by_cases hkm : k < m
    · exact h1 k hkm
    · have := h2 (k - m) (by omega)
      rwa [Nat.sub_add_cancel (by omega)] at this

namespace FileAccess

variable {σ : Type*} {io : FileAccess} {transfer : ℕ → ℕ → ℕ → σ → σ}

theorem windowBytes_spec (io : FileAccess) (backing_offset : ℕ) {size : ℕ} (hsize : size ≠ 0) :
    0 < io.windowBytes backing_offset size ∧ io.windowBytes backing_offset size ≤ size := by
  have hdelta := mod_lt backing_offset io.page_pos
  have hle := io.page_le
  unfold windowBytes
  dsimp only
  omega

/-- **`TransferFileRange`** succeeds if the host grants every window, and then moves the
range. The induction is on the windows; each takes the range one window further. -/
theorem transferFileRange_spec (ht : Transfer transfer) {fuel backing_offset data_offset size : ℕ}
    (hfuel : size ≤ fuel) {host host' : Host} {s s' : σ} {ok : Bool}
    (hrun : io.transferFileRange transfer fuel backing_offset data_offset size host s =
      (ok, host', s')) :
    (ok = true ↔ ∀ k < io.windowCount fuel backing_offset size, host.outcome k = true) ∧
      (ok = true → s' = transfer backing_offset data_offset size s ∧
        ∀ k, host'.outcome k = host.outcome (k + io.windowCount fuel backing_offset size)) := by
  induction fuel generalizing backing_offset data_offset size host s with
  | zero =>
    obtain rfl := le_zero.mp hfuel
    obtain ⟨rfl, rfl, rfl⟩ : true = ok ∧ host = host' ∧ s = s' := by
      simpa [transferFileRange] using hrun
    exact ⟨iff_of_true rfl fun k hk => absurd hk (not_lt_zero k),
      fun _ => ⟨(ht.zero _ _ _).symm, fun _ => rfl⟩⟩
  | succ fuel ih =>
    unfold transferFileRange at hrun
    unfold windowCount
    by_cases hsize : size = 0
    · rw [if_pos hsize] at hrun ⊢
      obtain ⟨rfl, rfl, rfl⟩ : true = ok ∧ host = host' ∧ s = s' := by simpa using hrun
      rw [hsize]
      exact ⟨iff_of_true rfl fun k hk => absurd hk (not_lt_zero k),
        fun _ => ⟨(ht.zero _ _ _).symm, fun _ => rfl⟩⟩
    · rw [if_neg hsize] at hrun ⊢
      dsimp only at hrun ⊢
      obtain ⟨hpos, hle⟩ := io.windowBytes_spec backing_offset hsize
      generalize io.windowBytes backing_offset size = bytes at hrun hpos hle ⊢
      rw [add_comm, forall_lt_add]
      have hfirst : (∀ k < 1, host.outcome k = true) ↔ host.outcome 0 = true :=
        ⟨fun h => h 0 one_pos, fun h k hk => by rw [lt_one_iff.mp hk]; exact h⟩
      rw [hfirst]
      split at hrun
      next hmapped =>
        have hmapped : host.outcome 0 = true := hmapped
        obtain ⟨hok, hdone⟩ := ih (by omega) hrun
        refine ⟨by rw [and_iff_right hmapped]; exact hok, fun h => ?_⟩
        obtain ⟨hs, hhost⟩ := hdone h
        constructor
        · rw [hs, ht.append, Nat.add_sub_cancel' hle]
        · intro k
          rw [hhost k, ← add_assoc, add_right_comm]
          rfl
      next hmapped =>
        cases hrun
        exact ⟨iff_of_false nofun fun h => hmapped h.1, nofun⟩

/-- **The copying loop** succeeds if the host grants every window, and then moves the
pieces in their order. -/
theorem transferPieces_spec (io : FileAccess) (ht : Transfer transfer) (pieces : List Piece)
    (host : Host) (s : σ) {host' : Host} {s' : σ} {ok : Bool}
    (hrun : io.transferPieces transfer pieces host s = (ok, host', s')) :
    (ok = true ↔ ∀ k < io.windowsOf pieces, host.outcome k = true) ∧
      (ok = true →
        s' = pieces.foldl (fun s p => transfer p.offset p.data_offset p.bytes s) s) := by
  induction pieces generalizing host s with
  | nil =>
    obtain ⟨rfl, -, rfl⟩ : true = ok ∧ host = host' ∧ s = s' := by
      simpa [transferPieces] using hrun
    refine ⟨iff_of_true rfl fun k hk => ?_, fun _ => rfl⟩
    simp [windowsOf] at hk
  | cons p pieces ih =>
    unfold transferPieces at hrun
    rw [foldl_cons]
    by_cases hbase : io.m_backing_base = true
    · rw [if_pos hbase] at hrun
      obtain ⟨hok, hdone⟩ := ih _ _ hrun
      have hnone : ∀ l, io.windowsOf l = 0 := fun l => if_pos hbase
      rw [hnone] at hok ⊢
      exact ⟨hok, hdone⟩
    · rw [if_neg hbase] at hrun
      have hcons : io.windowsOf (p :: pieces) =
          io.windowCount p.bytes p.offset p.bytes + io.windowsOf pieces := by
        unfold windowsOf
        rw [if_neg hbase, if_neg hbase, map_cons, sum_cons]
      rw [hcons, forall_lt_add]
      split at hrun
      next host1 s1 hrange =>
        obtain ⟨hok1, hdone1⟩ := transferFileRange_spec ht le_rfl hrange
        obtain ⟨hs1, hhost1⟩ := hdone1 rfl
        obtain ⟨hok, hdone⟩ := ih _ _ hrun
        simp only [hhost1] at hok
        rw [and_iff_right (hok1.mp rfl), ← hs1]
        exact ⟨hok, hdone⟩
      next host1 s1 hrange =>
        obtain ⟨hok1, -⟩ := transferFileRange_spec ht le_rfl hrange
        cases hrun
        exact ⟨iff_of_false Bool.false_ne_true fun h => Bool.false_ne_true (hok1.mpr h.1), nofun⟩

end FileAccess

namespace GuestBackingStore

/-! ## What an address shows -/

/-- The byte of the file that shows at an address. -/
def offsetAt (b : GuestBackingStore) (x : ℕ) : Option ℕ := (b.byteAt x).map Prod.fst

/-- What a program reads at an address, the file holding `file`. -/
def shows (b : GuestBackingStore) (file : Bytes) (x : ℕ) : Option UInt8 :=
  (b.offsetAt x).map file

/-- The views lie in the file. -/
def InFile (b : GuestBackingStore) : Prop := ∀ x j, b.offsetAt x = some j → j < b.m_size

/-- Every byte of the span is backed. A span has a byte, and its end is an address. -/
def Backed (b : GuestBackingStore) (vaddr size : ℕ) : Prop :=
  size ≠ 0 ∧ vaddr + size ≤ UINT64_MAX ∧
    ∀ x, vaddr ≤ x → x < vaddr + size → (b.offsetAt x).isSome

variable {b : GuestBackingStore} {parts : List (MapEntry × ℕ × ℕ)}

theorem offsetAt_isSome {x : ℕ} : (b.offsetAt x).isSome ↔ Occupied b.m_maps x := by
  unfold offsetAt
  rw [isSome_map, view_isSome_iff]

theorem offsetAt_of_part (h : Wf b) {s e : ℕ}
    (htiles : Tiles b.m_maps s e parts) {entry : MapEntry} {f t : ℕ}
    (hp : (entry, f, t) ∈ parts) {x : ℕ} (h1 : f ≤ x) (h2 : x < t) :
    b.offsetAt x = some (entry.backing_offset + f - entry.vaddr + (x - f)) := by
  obtain ⟨hmem, -, -, -, hlo, hhi⟩ := htiles.part hp
  have hlo' : entry.vaddr ≤ f := hlo
  have hview : b.byteAt x = some (entry.attr x) :=
    h.ordered.apart.view_of_mem hmem ⟨by omega, by omega⟩
  unfold offsetAt
  rw [hview, map_some]
  congr 1
  show entry.backing_offset + (x - entry.vaddr) = _
  omega

/-! ## The check -/

theorem rangeOk_of_lt {offset bytes : ℕ} (hpos : 0 < bytes)
    (hlt : offset + (bytes - 1) < b.m_size) : b.rangeOk offset bytes = true := by
  unfold rangeOk
  rw [decide_eq_true_eq]
  omega

/-- **The first loop** gets through exactly if the span is backed. -/
theorem spanPieces_spec (h : Wf b) (hin : InFile b) (vaddr size : ℕ) :
    match b.spanPieces vaddr size with
    | none => ¬ Backed b vaddr size
    | some pieces => Backed b vaddr size ∧ ∃ parts, Tiles b.m_maps vaddr (vaddr + size) parts ∧
        pieces = parts.map (pieceOf vaddr) := by
  unfold spanPieces
  by_cases hbad : size = 0 ∨ UINT64_MAX - vaddr < size
  · rw [if_pos hbad]
    rintro ⟨h1, h2, -⟩
    omega
  · rw [if_neg hbad]
    have hsome : (walk (fun current => b.findContainingUnlocked current 1) b.m_maps.length vaddr
        (vaddr + size)).isSome ↔ ∀ x, vaddr ≤ x → x < vaddr + size → (b.offsetAt x).isSome := by
      have hcontains := contains_iff h (show vaddr + size ≤ UINT64_MAX by omega)
      unfold contains at hcontains
      rw [if_neg hbad, and_iff_right (by omega)] at hcontains
      simp only [offsetAt_isSome]
      exact hcontains
    cases hwalk : walk (fun current => b.findContainingUnlocked current 1) b.m_maps.length vaddr
        (vaddr + size) with
    | none =>
      rw [hwalk] at hsome
      rintro ⟨-, -, hall⟩
      nomatch (hsome.mpr hall)
    | some parts =>
      rw [hwalk] at hsome
      have htiles := walk_tiles (sound_findContainingUnlocked h) hwalk
      have hok : ((parts.map (pieceOf vaddr)).all fun p => b.rangeOk p.offset p.bytes) = true := by
        rw [List.all_eq_true]
        intro p hp
        obtain ⟨⟨entry, f, t⟩, hpart, rfl⟩ := mem_map.mp hp
        obtain ⟨-, -, hft, -, -, -⟩ := htiles.part hpart
        have hlast := offsetAt_of_part h htiles hpart (x := t - 1) (by omega) (by omega)
        have hlt := hin (t - 1) _ hlast
        apply rangeOk_of_lt
        · show 0 < t - f
          omega
        · show entry.backing_offset + f - entry.vaddr + (t - f - 1) < b.m_size
          omega
      dsimp only
      rw [if_pos hok]
      exact ⟨⟨by omega, by omega, hsome.mp rfl⟩, parts, htiles, rfl⟩

/-! ## The copies -/

theorem read_pieces (h : Wf b) (file : Bytes) {vaddr s e : ℕ}
    (htiles : Tiles b.m_maps s e parts) (hs : vaddr ≤ s)
    (data : Bytes) (i : ℕ) :
    (s ≤ vaddr + i ∧ vaddr + i < e → some ((parts.map (pieceOf vaddr)).foldl
      (fun d p => copyBlock file p.offset p.data_offset p.bytes d) data i) =
        b.shows file (vaddr + i)) ∧
    (¬ (s ≤ vaddr + i ∧ vaddr + i < e) → (parts.map (pieceOf vaddr)).foldl
      (fun d p => copyBlock file p.offset p.data_offset p.bytes d) data i = data i) := by
  induction parts generalizing s data with
  | nil =>
    have hle : e ≤ s := htiles
    exact ⟨fun hx => absurd hx (by omega), fun _ => rfl⟩
  | cons part parts ih =>
    obtain ⟨entry, f, t⟩ := part
    have hoff := @offsetAt_of_part b _ h s e htiles entry f t (.head _ ..)
    obtain ⟨-, rfl, -, hft, ht, hrest⟩ := htiles
    rw [map_cons, foldl_cons]
    obtain ⟨hin, hout⟩ := ih hrest (by omega) (copyBlock file
      (pieceOf vaddr (entry, f, t)).offset (pieceOf vaddr (entry, f, t)).data_offset
      (pieceOf vaddr (entry, f, t)).bytes data)
    by_cases hlater : t ≤ vaddr + i ∧ vaddr + i < e
    · exact ⟨fun _ => hin hlater, fun hx => absurd hx (by omega)⟩
    · rw [hout hlater]
      by_cases hhere : f ≤ vaddr + i ∧ vaddr + i < t
      · refine ⟨fun _ => ?_, fun hx => absurd hx (by omega)⟩
        unfold shows
        rw [hoff hhere.1 hhere.2, map_some, copyBlock_of_mem]
        · congr 2
          show entry.backing_offset + f - entry.vaddr + (i - (f - vaddr)) = _
          omega
        · show f - vaddr ≤ i
          omega
        · show i < f - vaddr + (t - f)
          omega
      · refine ⟨fun hx => absurd hx (by omega), fun _ => copyBlock_of_not_mem ?_⟩
        show ¬ (f - vaddr ≤ i ∧ i < f - vaddr + (t - f))
        omega

/-- Writing the pieces of a span in their order leaves in each byte of the file what was
written through the last address of the span that shows it. -/
theorem write_pieces (h : Wf b) (source : Bytes) {vaddr s e : ℕ}
    (htiles : Tiles b.m_maps s e parts) (hs : vaddr ≤ s)
    (file : Bytes) (j : ℕ) :
    (∀ x, s ≤ x → x < e → b.offsetAt x = some j →
      (∀ y, x < y → y < e → b.offsetAt y ≠ some j) →
      (parts.map (pieceOf vaddr)).foldl
        (fun d p => copyBlock source p.data_offset p.offset p.bytes d) file j =
          source (x - vaddr)) ∧
    ((∀ x, s ≤ x → x < e → b.offsetAt x ≠ some j) →
      (parts.map (pieceOf vaddr)).foldl
        (fun d p => copyBlock source p.data_offset p.offset p.bytes d) file j = file j) := by
  induction parts generalizing s file with
  | nil =>
    have hle : e ≤ s := htiles
    exact ⟨fun x h1 h2 => absurd h2 (by omega), fun _ => rfl⟩
  | cons part parts ih =>
    obtain ⟨entry, f, t⟩ := part
    have hoff := @offsetAt_of_part b _ h s e htiles entry f t (.head _ ..)
    obtain ⟨-, rfl, -, hft, ht, hrest⟩ := htiles
    rw [map_cons, foldl_cons]
    obtain ⟨hin, hout⟩ := ih hrest (by omega) (copyBlock source
      (pieceOf vaddr (entry, f, t)).data_offset (pieceOf vaddr (entry, f, t)).offset
      (pieceOf vaddr (entry, f, t)).bytes file)
    constructor
    · intro x h1 h2 hx hlast
      by_cases hlater : t ≤ x
      · exact hin x hlater h2 hx hlast
      · -- the pieces behind this one do not write the byte any more
        rw [hout fun y hy1 hy2 => hlast y (by omega) hy2]
        have hj := (hoff h1 (by omega)).symm.trans hx
        have hj : entry.backing_offset + f - entry.vaddr + (x - f) = j := some.inj hj
        rw [copyBlock_of_mem]
        · congr 1
          show f - vaddr + (j - (entry.backing_offset + f - entry.vaddr)) = x - vaddr
          omega
        · show entry.backing_offset + f - entry.vaddr ≤ j
          omega
        · show j < entry.backing_offset + f - entry.vaddr + (t - f)
          omega
    · intro hnone
      rw [hout fun y hy1 hy2 => hnone y (by omega) hy2, copyBlock_of_not_mem]
      rintro ⟨hj1, hj2⟩
      have hj1 : entry.backing_offset + f - entry.vaddr ≤ j := hj1
      have hj2 : j < entry.backing_offset + f - entry.vaddr + (t - f) := hj2
      have hx := hoff (x := f + (j - (entry.backing_offset + f - entry.vaddr)))
        (by omega) (by omega)
      apply hnone _ (by omega) (by omega) (hx.trans _)
      congr 1
      omega

/-! ## Sparse reads -/

/-- What the search for the first view passes ends before the span, and every view from
there on ends in it or behind it. -/
theorem sparseFirst_spec (h : Wf b) (vaddr : ℕ) :
    ∃ passed, passed ++ b.sparseFirst vaddr = b.m_maps ∧ (∀ e ∈ passed, hi e ≤ vaddr) ∧
      ∀ e ∈ b.sparseFirst vaddr, vaddr < e.vaddr + e.size := by
  unfold sparseFirst
  obtain ⟨ho, hp, -⟩ := h
  have hsplit : b.m_maps.takeWhile (fun e => decide (e.vaddr < vaddr)) ++
      b.m_maps.dropWhile (fun e => decide (e.vaddr < vaddr)) = b.m_maps :=
    takeWhile_append_dropWhile
  have hahead : ∀ e ∈ b.m_maps.dropWhile (fun e => decide (e.vaddr < vaddr)), vaddr ≤ e.vaddr :=
    fun e he => ho.le_lo_of_mem_dropWhile hp he
  generalize htake : b.m_maps.takeWhile (fun e => decide (e.vaddr < vaddr)) = passed at *
  generalize b.m_maps.dropWhile (fun e => decide (e.vaddr < vaddr)) = ahead at *
  obtain ⟨hop, -, -⟩ := ordered_append.mp (hsplit.symm ▸ ho)
  obtain ⟨hpp, hpa⟩ := proper_append.mp (hsplit.symm ▸ hp)
  have hreach : ∀ e ∈ ahead, vaddr < e.vaddr + e.size := fun e he =>
    (hahead e he).trans_lt (hpa e he)
  split
  next hnone =>
    obtain rfl := getLast?_eq_none_iff.mp hnone
    exact ⟨[], hsplit, fun e he => absurd he not_mem_nil, hreach⟩
  next previous hlast =>
    split
    next hprevious =>
      obtain ⟨front, rfl⟩ := getLast?_eq_some_iff.mp hlast
      refine ⟨front, by rw [← hsplit, append_assoc]; rfl, ?_,
        forall_mem_cons.mpr ⟨hprevious, hreach⟩⟩
      intro e he
      have hle := (ordered_append.mp hop).2.2 e he previous (mem_singleton_self _)
      have hlt : previous.vaddr < vaddr :=
        lo_lt_of_mem_takeWhile (htake ▸ mem_of_getLast? hlast)
      exact hle.trans hlt.le
    next hprevious =>
      refine ⟨passed, hsplit, ?_, hreach⟩
      intro e he
      have hle := (hop.hi_le_getLast hpp hlast he).2
      exact hle.trans (Nat.le_of_not_lt hprevious)

theorem sparseMaps_spec (h : Wf b) (vaddr end_ : ℕ) :
    Ordered (b.sparseMaps vaddr end_) ∧ (∀ e ∈ b.sparseMaps vaddr end_,
      e ∈ b.m_maps ∧ e.vaddr < end_ ∧ vaddr < e.vaddr + e.size) ∧
    ∀ x, vaddr ≤ x → x < end_ →
      view attr (b.sparseMaps vaddr end_) x = b.byteAt x := by
  obtain ⟨passed, hmaps, hpassed, hreach⟩ := sparseFirst_spec h vaddr
  obtain ⟨ho, hp, -⟩ := h
  unfold sparseMaps
  generalize b.sparseFirst vaddr = first at *
  obtain ⟨-, hof, -⟩ := ordered_append.mp (hmaps.symm ▸ ho)
  obtain ⟨-, hpf⟩ := proper_append.mp (hmaps.symm ▸ hp)
  refine ⟨hof.sublist (takeWhile_sublist _), ?_, ?_⟩
  · intro e he
    have hmem := ( takeWhile_prefix _).subset he
    exact ⟨hmaps ▸ mem_append_right _ hmem, lo_lt_of_mem_takeWhile he, hreach e hmem⟩
  · intro x h1 h2
    have hbefore : view attr passed x = none := by
      rw [view_eq_none_iff]
      rintro ⟨e, he, -, hlt⟩
      exact absurd hlt (not_lt.mpr ((hpassed e he).trans h1))
    have hbehind : view attr (first.dropWhile fun e => decide (e.vaddr < end_)) x = none := by
      rw [view_eq_none_iff]
      rintro ⟨e, he, hle, -⟩
      have hend := hof.le_lo_of_mem_dropWhile hpf he
      omega
    have hcut : view attr first x = b.byteAt x := by
      unfold byteAt
      rw [← hmaps, view_append, hbefore, none_or]
    rw [← hcut]
    conv_rhs => rw [← takeWhile_append_dropWhile (p := fun e => decide (e.vaddr < end_))
      (l := first)]
    rw [view_append, hbehind, or_none]

/-- Reading the pieces of the views that meet a span reads what its addresses show, and
leaves the buffer alone where they show nothing. -/
theorem sparse_pieces (file : Bytes) {vaddr end_ : ℕ} {entries : List MapEntry}
    (ho : Ordered entries) (hmeet : ∀ e ∈ entries, e.vaddr < end_ ∧ vaddr < e.vaddr + e.size)
    (data : Bytes) (i : ℕ) :
    (entries.map (sparsePieceOf vaddr end_)).foldl
      (fun d p => copyBlock file p.offset p.data_offset p.bytes d) data i =
        if vaddr + i < end_ then
          ((view attr entries (vaddr + i)).map fun a => file a.1).getD (data i)
        else data i := by
  induction entries generalizing data with
  | nil =>
    rw [view_nil, map_none, getD_none, ite_self]
    rfl
  | cons e entries ih =>
    obtain ⟨hbehind, ho'⟩ := ordered_cons.mp ho
    obtain ⟨⟨hlo, hhi⟩, hmeet'⟩ := forall_mem_cons.mp hmeet
    rw [map_cons, foldl_cons, ih ho' hmeet', view_cons]
    have hcov : Covers e (vaddr + i) ↔ e.vaddr ≤ vaddr + i ∧ vaddr + i < e.vaddr + e.size :=
      .rfl
    by_cases hx : vaddr + i < end_
    · rw [if_pos hx, if_pos hx]
      by_cases he : Covers e (vaddr + i)
      · -- the other views do not show this address
        have hnone : view attr entries (vaddr + i) = none := by
          rw [view_eq_none_iff]
          rintro ⟨c, hc, hc1, -⟩
          have h1 := hbehind c hc
          have h2 := he.2
          omega
        rw [if_pos he, hnone, map_none, getD_none, map_some, getD_some, copyBlock_of_mem]
        · obtain ⟨he1, he2⟩ := hcov.mp he
          show file (e.backing_offset + max vaddr e.vaddr - e.vaddr +
            (i - (max vaddr e.vaddr - vaddr))) = file (e.backing_offset + (vaddr + i - e.vaddr))
          congr 1
          omega
        · obtain ⟨he1, he2⟩ := hcov.mp he
          show max vaddr e.vaddr - vaddr ≤ i
          omega
        · obtain ⟨he1, he2⟩ := hcov.mp he
          show i < max vaddr e.vaddr - vaddr + (min end_ (e.vaddr + e.size) - max vaddr e.vaddr)
          omega
      · rw [if_neg he, copyBlock_of_not_mem]
        show ¬ (max vaddr e.vaddr - vaddr ≤ i ∧ i < max vaddr e.vaddr - vaddr +
          (min end_ (e.vaddr + e.size) - max vaddr e.vaddr))
        rw [hcov] at he
        omega
    · rw [if_neg hx, if_neg hx, copyBlock_of_not_mem]
      show ¬ (max vaddr e.vaddr - vaddr ≤ i ∧ i < max vaddr e.vaddr - vaddr +
        (min end_ (e.vaddr + e.size) - max vaddr e.vaddr))
      omega

theorem sparsePieces_rangeOk (h : Wf b) (hin : InFile b) {vaddr size : ℕ} (hsize : size ≠ 0) :
    ((b.sparsePieces vaddr size).all fun p => b.rangeOk p.offset p.bytes) = true := by
  rw [List.all_eq_true]
  intro p hp
  obtain ⟨e, he, rfl⟩ := List.mem_map.mp hp
  obtain ⟨hmem, hlo, hhi⟩ := (sparseMaps_spec h vaddr (vaddr + size)).2.1 e he
  have hpe : e.vaddr < e.vaddr + e.size := h.proper e hmem
  -- the last byte of the piece is a byte of the file
  have hview : b.byteAt (min (vaddr + size) (e.vaddr + e.size) - 1) = some (e.attr _) :=
    h.ordered.apart.view_of_mem hmem
      ⟨by show e.vaddr ≤ _; omega, by show _ < e.vaddr + e.size; omega⟩
  have hlt := hin (min (vaddr + size) (e.vaddr + e.size) - 1)
    (e.backing_offset + (min (vaddr + size) (e.vaddr + e.size) - 1 - e.vaddr))
    (by unfold offsetAt; rw [hview]; rfl)
  apply rangeOk_of_lt
  · show 0 < min (vaddr + size) (e.vaddr + e.size) - max vaddr e.vaddr
    omega
  · show e.backing_offset + max vaddr e.vaddr - e.vaddr +
      (min (vaddr + size) (e.vaddr + e.size) - max vaddr e.vaddr - 1) < b.m_size
    omega

/-! ## The invariant -/

theorem inFile_of_le (h : ∀ e ∈ b.m_maps, e.backing_offset + e.size ≤ b.m_size) : InFile b := by
  intro x j hj
  obtain ⟨shown, hshown, rfl⟩ := map_eq_some_iff.mp hj
  obtain ⟨e, he, rfl⟩ := map_eq_some_iff.mp hshown
  obtain ⟨hx1, hx2⟩ := covers_of_at?_eq_some he
  have hx1 : e.vaddr ≤ x := hx1
  have hx2 : x < e.vaddr + e.size := hx2
  have hle := h e (mem_of_at?_eq_some he)
  show e.backing_offset + (x - e.vaddr) < b.m_size
  omega

/-! ## The three calls -/

/-- A read of the span agrees with what its addresses show. -/
structure ReadAgrees (b : GuestBackingStore) (io : FileAccess) (file : Bytes) (vaddr : ℕ)
    (data : Bytes) (size : ℕ) : Prop where
  succeeds : (b.tryReadBacking io file vaddr (some data) size).1 = true ↔ Backed b vaddr size
  copied : (b.tryReadBacking io file vaddr (some data) size).1 = true →
    ∃ data', (b.tryReadBacking io file vaddr (some data) size).2.2 = some data' ∧
      (∀ i < size, some (data' i) = b.shows file (vaddr + i)) ∧
      ∀ i, size ≤ i → data' i = data i
  failed : (b.tryReadBacking io file vaddr (some data) size).1 = false →
    (b.tryReadBacking io file vaddr (some data) size).2.2 = some data

/-- A write through the span agrees with what the addresses show: every address that
shows a byte written through the span, in it or not, shows what was written to that byte
last, and all other bytes of the file are kept. -/
structure WriteAgrees (b : GuestBackingStore) (io : FileAccess) (file : Bytes) (vaddr : ℕ)
    (data : Bytes) (size : ℕ) : Prop where
  succeeds : (b.tryWriteBacking io file vaddr (some data) size).1 = true ↔ Backed b vaddr size
  copied : (b.tryWriteBacking io file vaddr (some data) size).1 = true →
    (∀ i < size,
      (∀ k, i < k → k < size → b.offsetAt (vaddr + k) ≠ b.offsetAt (vaddr + i)) →
      ∀ x, b.offsetAt x = b.offsetAt (vaddr + i) →
        b.shows (b.tryWriteBacking io file vaddr (some data) size).2.2 x = some (data i)) ∧
    ∀ j, (∀ i < size, b.offsetAt (vaddr + i) ≠ some j) →
      (b.tryWriteBacking io file vaddr (some data) size).2.2 j = file j
  failed : (b.tryWriteBacking io file vaddr (some data) size).1 = false →
    (b.tryWriteBacking io file vaddr (some data) size).2.2 = file

/-- A sparse read of the span agrees with what its addresses show, and reads zero where
they show nothing. -/
structure SparseAgrees (b : GuestBackingStore) (io : FileAccess) (file : Bytes) (vaddr : ℕ)
    (data : Bytes) (size : ℕ) : Prop where
  succeeds : (b.tryReadSparseBacking io file vaddr (some data) size).1 = true ↔
    size ≠ 0 ∧ vaddr + size ≤ UINT64_MAX
  copied : (b.tryReadSparseBacking io file vaddr (some data) size).1 = true →
    ∃ data', (b.tryReadSparseBacking io file vaddr (some data) size).2.2 = some data' ∧
      (∀ i < size, data' i = (b.shows file (vaddr + i)).getD 0) ∧
      ∀ i, size ≤ i → data' i = data i
  failed : (b.tryReadSparseBacking io file vaddr (some data) size).1 = false →
    (b.tryReadSparseBacking io file vaddr (some data) size).2.2 = some data

/-- The host grants every window that a transfer of the span asks for. With the alias
there is none. -/
def SpanGranted (b : GuestBackingStore) (io : FileAccess) (vaddr size : ℕ) : Prop :=
  ∀ pieces, b.spanPieces vaddr size = some pieces →
    ∀ k < io.windowsOf pieces, b.host.outcome k = true

/-- The host grants every window that a sparse read of the span asks for. -/
def SparseGranted (b : GuestBackingStore) (io : FileAccess) (vaddr size : ℕ) : Prop :=
  size ≠ 0 → vaddr + size ≤ UINT64_MAX →
    ∀ k < io.windowsOf (b.sparsePieces vaddr size), b.host.outcome k = true

variable {io : FileAccess}

/-- **`TryTransferBacking`** leaves everything alone on a span that is not backed. On one
that is, it succeeds if the host grants the windows, and then moves the parts in order. -/
theorem tryTransferBacking_spec {σ : Type*} (io : FileAccess) {transfer : ℕ → ℕ → ℕ → σ → σ}
    (ht : Transfer transfer) (h : Wf b) (hin : InFile b) (vaddr size : ℕ) (s : σ) :
    (¬ Backed b vaddr size → SpanGranted b io vaddr size ∧
      b.tryTransferBacking io vaddr size transfer s = (false, b.host, s)) ∧
    (Backed b vaddr size →
      ((b.tryTransferBacking io vaddr size transfer s).1 = true ↔ SpanGranted b io vaddr size) ∧
      ∃ parts, Tiles b.m_maps vaddr (vaddr + size) parts ∧
        ((b.tryTransferBacking io vaddr size transfer s).1 = true →
          (b.tryTransferBacking io vaddr size transfer s).2.2 = (parts.map (pieceOf vaddr)).foldl
            (fun s p => transfer p.offset p.data_offset p.bytes s) s)) := by
  have hspec := spanPieces_spec h hin vaddr size
  unfold tryTransferBacking SpanGranted
  cases hpieces : b.spanPieces vaddr size with
  | none =>
    rw [hpieces] at hspec
    exact ⟨fun _ => ⟨fun pieces hsome => absurd hsome (by simp), rfl⟩,
      fun hbacked => absurd hbacked hspec⟩
  | some pieces =>
    rw [hpieces] at hspec
    obtain ⟨hbacked, parts, htiles, rfl⟩ := hspec
    obtain ⟨hok, hdone⟩ := FileAccess.transferPieces_spec io ht (parts.map (pieceOf vaddr)) b.host s
      (Prod.mk.eta).symm
    simp only [some.injEq, forall_eq']
    exact ⟨fun hno => absurd hbacked hno, fun _ => ⟨hok, parts, htiles, hdone⟩⟩

section

variable (h : Wf b) (hin : InFile b) (file data : Bytes) (vaddr size : ℕ)

include h hin file data vaddr size

theorem readAgrees_iff : ReadAgrees b io file vaddr data size ↔ SpanGranted b io vaddr size := by
  obtain ⟨hrefused, hbacked⟩ := tryTransferBacking_spec io
    (transfer_copyBlock file) h hin vaddr size data
  have hresult : b.tryReadBacking io file vaddr (some data) size =
      ((b.tryTransferBacking io vaddr size (copyBlock file) data).1,
        (b.tryTransferBacking io vaddr size (copyBlock file) data).2.1,
        some (b.tryTransferBacking io vaddr size (copyBlock file) data).2.2) := rfl
  by_cases hspan : Backed b vaddr size
  · obtain ⟨hok, parts, htiles, hdone⟩ := hbacked hspan
    constructor
    · exact fun ha => hok.mp (ha.succeeds.mpr hspan)
    · intro hgranted
      have htrue := hok.mpr hgranted
      refine ⟨iff_of_true htrue hspan, fun _ => ?_, fun hf => nomatch (htrue.symm.trans hf)⟩
      refine ⟨_, by rw [hresult], ?_, ?_⟩
      · intro i hi
        rw [hdone htrue]
        exact (read_pieces h file htiles le_rfl data i).1 ⟨by omega, by omega⟩
      · intro i hi
        rw [hdone htrue]
        exact (read_pieces h file htiles le_rfl data i).2 (by omega)
  · obtain ⟨hgranted, hsame⟩ := hrefused hspan
    rw [hsame] at hresult
    refine iff_of_true ⟨?_, ?_, ?_⟩ hgranted
    · rw [hresult]
      exact iff_of_false nofun hspan
    · rw [hresult]
      exact nofun
    · rw [hresult]
      exact fun _ => rfl

theorem writeAgrees_iff : WriteAgrees b io file vaddr data size ↔ SpanGranted b io vaddr size := by
  obtain ⟨hrefused, hbacked⟩ := tryTransferBacking_spec io
    (transfer_copyBlock_flip data) h hin vaddr size file
  have hresult : b.tryWriteBacking io file vaddr (some data) size =
      b.tryTransferBacking io vaddr size
        (fun offset data_offset bytes => copyBlock data data_offset offset bytes) file := rfl
  by_cases hspan : Backed b vaddr size
  · obtain ⟨hok, parts, htiles, hdone⟩ := hbacked hspan
    constructor
    · exact fun ha => hok.mp (ha.succeeds.mpr hspan)
    · intro hgranted
      have htrue := hok.mpr hgranted
      refine ⟨iff_of_true htrue hspan, fun _ => ⟨?_, ?_⟩, fun hf => nomatch (htrue.symm.trans hf)⟩
      · intro i hi hlast x hx
        obtain ⟨j, hj⟩ := Option.isSome_iff_exists.mp (hspan.2.2 (vaddr + i) (by omega) (by omega))
        have hwritten := (write_pieces h data htiles le_rfl file j).1 (vaddr + i)
          (by omega) (by omega) hj (fun y hy1 hy2 hy => by
            apply hlast (y - vaddr) (by omega) (by omega)
            rw [hj, Nat.add_sub_cancel' (by omega), hy])
        rw [Nat.add_sub_cancel_left] at hwritten
        unfold shows
        rw [hx, hj, map_some, hresult, hdone htrue]
        exact congrArg some hwritten
      · intro j hnone
        rw [hresult, hdone htrue]
        refine (write_pieces h data htiles le_rfl file j).2 fun x hx1 hx2 => ?_
        have hx := hnone (x - vaddr) (by omega)
        rwa [Nat.add_sub_cancel' hx1] at hx
  · obtain ⟨hgranted, hsame⟩ := hrefused hspan
    rw [hsame] at hresult
    refine iff_of_true ⟨?_, ?_, ?_⟩ hgranted
    · rw [hresult]
      exact iff_of_false nofun hspan
    · rw [hresult]
      exact nofun
    · rw [hresult]
      exact fun _ => rfl

theorem sparseAgrees_iff :
    SparseAgrees b io file vaddr data size ↔ SparseGranted b io vaddr size := by
  by_cases hbad : size = 0 ∨ UINT64_MAX - vaddr < size
  · have hresult : b.tryReadSparseBacking io file vaddr (some data) size =
        (false, b.host, some data) := if_pos hbad
    refine iff_of_true ⟨?_, ?_, ?_⟩ (fun h1 h2 => by omega)
    · rw [hresult]
      exact iff_of_false nofun (by omega)
    · rw [hresult]
      exact nofun
    · rw [hresult]
      exact fun _ => rfl
  · have hvalid : size ≠ 0 ∧ vaddr + size ≤ UINT64_MAX := by omega
    obtain ⟨hok, hdone⟩ := FileAccess.transferPieces_spec io (transfer_copyBlock file)
      (b.sparsePieces vaddr size) b.host (fun i => if i < size then 0 else data i)
      (Prod.mk.eta).symm
    have hresult : b.tryReadSparseBacking io file vaddr (some data) size =
        ((io.transferPieces (copyBlock file) (b.sparsePieces vaddr size) b.host
            fun i => if i < size then 0 else data i).1,
          (io.transferPieces (copyBlock file) (b.sparsePieces vaddr size) b.host
            fun i => if i < size then 0 else data i).2.1,
          some (io.transferPieces (copyBlock file) (b.sparsePieces vaddr size) b.host
            fun i => if i < size then 0 else data i).2.2) := by
      unfold tryReadSparseBacking
      dsimp only
      rw [if_neg hbad, if_pos (sparsePieces_rangeOk h hin hvalid.1)]
    have hgranted : SparseGranted b io vaddr size ↔
        ∀ k < io.windowsOf (b.sparsePieces vaddr size), b.host.outcome k = true :=
      ⟨fun hall => hall hvalid.1 hvalid.2, fun hall _ _ => hall⟩
    rw [hgranted, ← hok]
    constructor
    · intro ha
      have htrue := ha.succeeds.mpr hvalid
      rwa [hresult] at htrue
    · intro htrue
      obtain ⟨ho, hmeet, hview⟩ := sparseMaps_spec h vaddr (vaddr + size)
      have hread := sparse_pieces file ho (fun e he => (hmeet e he).2)
        fun i => if i < size then 0 else data i
      refine ⟨?_, ?_, ?_⟩
      · rw [hresult]
        exact iff_of_true htrue hvalid
      · rw [hresult]
        intro _
        refine ⟨_, rfl, ?_, ?_⟩
        · intro i hi
          rw [hdone htrue]
          refine (hread i).trans ?_
          rw [if_pos (by omega), if_pos hi, hview (vaddr + i) (by omega) (by omega)]
          unfold shows offsetAt
          rw [Option.map_map]
          rfl
        · intro i hi
          rw [hdone htrue]
          refine (hread i).trans ?_
          rw [if_neg (by omega), if_neg (by omega)]
      · rw [hresult]
        exact fun hf => nomatch (htrue.symm.trans hf)

end

end GuestBackingStore

open GuestBackingStore in
/-- **When the transfers agree with the table of views.** Each of the three calls does so
exactly if the host grants every window it asks for; with the alias of the whole file
there is none to ask for. -/
theorem backing_transfers_agree_iff {b : GuestBackingStore} (h : Wf b) (hin : InFile b)
    (io : FileAccess) (file data : Bytes) (vaddr size : ℕ) :
    (ReadAgrees b io file vaddr data size ↔ SpanGranted b io vaddr size) ∧
      (WriteAgrees b io file vaddr data size ↔ SpanGranted b io vaddr size) ∧
      (SparseAgrees b io file vaddr data size ↔ SparseGranted b io vaddr size) ∧
      (io.m_backing_base = true → SpanGranted b io vaddr size ∧ SparseGranted b io vaddr size) := by
  refine ⟨readAgrees_iff h hin file data vaddr size, writeAgrees_iff h hin file data vaddr size,
    sparseAgrees_iff h hin file data vaddr size, fun hbase => ?_⟩
  have hnone : ∀ pieces, io.windowsOf pieces = 0 := fun pieces => if_pos hbase
  unfold SpanGranted SparseGranted
  simp only [hnone, Nat.not_lt_zero, false_implies, implies_true, and_self]

namespace GuestBackingStore

/-- Two views that touch, of two pages of the file that do not, without the alias. The
host grants the first window and refuses the second. -/
def splitViews : GuestBackingStore where
  m_size := 0x20000
  m_maps := [⟨0x4000, 0x4000, 0, .readWrite⟩, ⟨0x8000, 0x4000, 0x10000, .readWrite⟩]
  host := { outcome := fun n => n != 1, memory := fun _ => .unmapped }

def sparseIo : FileAccess := ⟨false, 0x4000, by decide, by decide⟩

theorem splitViews_wf : Wf splitViews := by
  refine ⟨?_, ?_, ?_⟩
  · simp [Ordered, splitViews, lo, hi]
  · simp [Proper, splitViews, lo, hi]
  · simp [splitViews, UINT64_MAX]

theorem splitViews_inFile : InFile splitViews := inFile_of_le (by simp [splitViews])

end GuestBackingStore

open GuestBackingStore in
/-- A read of both views fails at the second one, when the first is in the buffer already. -/
theorem backing_transfers_partial :
    Wf splitViews ∧ InFile splitViews ∧ Backed splitViews 0x4000 0x8000 ∧
      (splitViews.tryReadBacking sparseIo (fun _ => 7) 0x4000 (some fun _ => 0) 0x8000).1 = false ∧
      ((splitViews.tryReadBacking sparseIo (fun _ => 7) 0x4000 (some fun _ => 0) 0x8000).2.2.map
        fun data => data 0) = some 7 ∧
      ¬ ReadAgrees splitViews sparseIo (fun _ => 7) 0x4000 (fun _ => 0) 0x8000 := by
  have hfail : (splitViews.tryReadBacking sparseIo (fun _ => 7) 0x4000 (some fun _ => 0)
      0x8000).1 = false := by decide
  have hdata : ((splitViews.tryReadBacking sparseIo (fun _ => 7) 0x4000 (some fun _ => 0)
      0x8000).2.2.map fun data => data 0) = some 7 := by decide
  have hbacked : Backed splitViews 0x4000 0x8000 := by
    have hspec := spanPieces_spec splitViews_wf splitViews_inFile 0x4000 0x8000
    exact hspec.1
  refine ⟨splitViews_wf, splitViews_inFile, hbacked, hfail, hdata, fun ha => ?_⟩
  rw [ha.failed hfail] at hdata
  exact nomatch hdata

open GuestBackingStore in
theorem backing_transfers_agree_iff_splitViews :
    ReadAgrees splitViews sparseIo (fun _ => 7) 0x4000 (fun _ => 0) 0x4000 :=
  (backing_transfers_agree_iff splitViews_wf splitViews_inFile sparseIo (fun _ => 7)
    (fun _ => 0) 0x4000 0x4000).1.mpr (by
      intro pieces hpieces
      obtain rfl : [⟨0, 0, 0x4000⟩] = pieces := Option.some.inj ((by decide :
        splitViews.spanPieces 0x4000 0x4000 = some [⟨0, 0, 0x4000⟩]).symm.trans hpieces)
      decide)

end MagnusPS5.Kernel
