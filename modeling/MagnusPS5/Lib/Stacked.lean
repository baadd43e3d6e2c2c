/-
Regions that lie one on the other, the last of them lowest.

Region `k` of `n` has the size `size k`. They start at `base`, and each ends where the one before it
in number starts; so they are apart, and fill what lies between `base` and their end.
-/
import Mathlib

namespace MagnusPS5.Lib

/-- The size of the regions below `n` together. -/
def totalSize (size : ℕ → ℕ) (n : ℕ) : ℕ := ∑ k ∈ Finset.range n, size k

@[simp] theorem totalSize_zero (size : ℕ → ℕ) : totalSize size 0 = 0 := Finset.sum_range_zero _

theorem totalSize_succ (size : ℕ → ℕ) (n : ℕ) :
    totalSize size (n + 1) = totalSize size n + size n := Finset.sum_range_succ _ _

theorem totalSize_mono (size : ℕ → ℕ) {m n : ℕ} (h : m ≤ n) : totalSize size m ≤ totalSize size n :=
  Finset.sum_le_sum_of_subset (Finset.range_subset_range.mpr h)

theorem totalSize_congr {size size' : ℕ → ℕ} {n : ℕ} (h : ∀ k < n, size k = size' k) :
    totalSize size n = totalSize size' n :=
  Finset.sum_congr rfl fun k hk => h k (Finset.mem_range.mp hk)

theorem foldl_totalSize (size : ℕ → ℕ) (n : ℕ) :
    (List.range n).foldl (fun total k => total + size k) 0 = totalSize size n := by
  induction n with
  | zero => rfl
  | succ n ih => rw [List.range_succ, List.foldl_append, ih, totalSize_succ]; rfl

/-- The regions below `n` lie one on the other from `base` on, the last of them lowest. -/
structure Stacked (size offset : ℕ → ℕ) (n base : ℕ) : Prop where
  meets : ∀ k < n, offset k + totalSize size (k + 1) = base + totalSize size n

namespace Stacked

variable {size offset : ℕ → ℕ} {n base k l byte : ℕ}

section

variable (h : Stacked size offset n base)

include h

theorem base_le (hk : k < n) : base ≤ offset k := by
  have hmeets := h.meets k hk
  have hmono := totalSize_mono size (Nat.succ_le_of_lt hk)
  rw [Nat.succ_eq_add_one] at hmono
  omega

theorem end_le (hk : k < n) : offset k + size k ≤ base + totalSize size n := by
  have hmeets := h.meets k hk
  rw [totalSize_succ] at hmeets
  omega

theorem below (hkl : k < l) (hl : l < n) : offset l + size l ≤ offset k := by
  have hmeetsk := h.meets k (hkl.trans hl)
  have hmeetsl := h.meets l hl
  have hmono := totalSize_mono size (Nat.succ_le_of_lt hkl)
  rw [Nat.succ_eq_add_one] at hmono
  rw [totalSize_succ size l] at hmeetsl
  omega

/-- **No two regions share a byte.** -/
theorem eq_of_mem (hk : k < n) (hl : l < n) (hkbyte : offset k ≤ byte ∧ byte < offset k + size k)
    (hlbyte : offset l ≤ byte ∧ byte < offset l + size l) : k = l := by
  rcases lt_trichotomy k l with hlt | heq | hgt
  · have hbelow := h.below hlt hl
    omega
  · exact heq
  · have hbelow := h.below hgt hk
    omega

end

theorem exists_between {r : ℕ} (hr : 0 < r) (m : ℕ) (hm : r ≤ totalSize size m) :
    ∃ k < m, totalSize size k < r ∧ r ≤ totalSize size (k + 1) := by
  induction m with
  | zero =>
    rw [totalSize_zero] at hm
    omega
  | succ m ih =>
    by_cases hlt : totalSize size m < r
    · exact ⟨m, Nat.lt_succ_self m, hlt, hm⟩
    · obtain ⟨k, hk, hbetween⟩ := ih (not_lt.mp hlt)
      exact ⟨k, hk.trans (Nat.lt_succ_self m), hbetween⟩

/-- **The regions fill what lies between their ends.** -/
theorem exists_mem (h : Stacked size offset n base) (hbase : base ≤ byte)
    (hend : byte < base + totalSize size n) :
    ∃ k < n, offset k ≤ byte ∧ byte < offset k + size k := by
  have hle : base + totalSize size n - byte ≤ totalSize size n := by omega
  obtain ⟨k, hk, hlow, hhigh⟩ := exists_between (by omega) n hle
  refine ⟨k, hk, ?_⟩
  have hmeets := h.meets k hk
  have hsucc := totalSize_succ size k
  omega

theorem dvd_totalSize {unit : ℕ} {m : ℕ} (hsize : ∀ k < m, unit ∣ size k) :
    unit ∣ totalSize size m :=
  Finset.dvd_sum fun k hk => hsize k (Finset.mem_range.mp hk)

theorem dvd_offset (h : Stacked size offset n base) {unit : ℕ} (hunit : unit ∣ base)
    (hsize : ∀ k < n, unit ∣ size k) (hk : k < n) : unit ∣ offset k := by
  have hmeets := h.meets k hk
  have hbelow : unit ∣ totalSize size (k + 1) := dvd_totalSize fun j hj => hsize j (by omega)
  have hall : unit ∣ base + totalSize size n := hunit.add (dvd_totalSize hsize)
  rw [← hmeets] at hall
  exact (Nat.dvd_add_left hbelow).mp hall

end Stacked

end MagnusPS5.Lib
