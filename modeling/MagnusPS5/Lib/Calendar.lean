/-
The Gregorian calendar in years that begin in March, extended to all integers: the months are
counted from 0, so that the leap day is the last day of its year, and the days of a month from 1.
-/
import Mathlib.Tactic

namespace MagnusPS5.Lib

/-- The days before a year, counted from the first day of year 0. -/
def yearStart (year : ℤ) : ℤ := 365 * year + year / 4 - year / 100 + year / 400

/-- The days of a year before a month. -/
def monthStart (month : ℤ) : ℤ := (153 * month + 2) / 5

/-- A date of the calendar. -/
structure MarchDate where
  year : ℤ
  month : ℤ
  day : ℤ

namespace MarchDate

/-- The month has the day, and the year has it. -/
structure Valid (date : MarchDate) : Prop where
  month_nonneg : 0 ≤ date.month
  month_le : date.month ≤ 11
  day_pos : 1 ≤ date.day
  day_le : date.month < 11 → monthStart date.month + date.day ≤ monthStart (date.month + 1)
  in_year : yearStart date.year + monthStart date.month + date.day ≤ yearStart (date.year + 1)

/-- The days up to a date, with it. -/
def number (date : MarchDate) : ℤ :=
  yearStart date.year + monthStart date.month + date.day

/-- An earlier date. -/
def Before (a b : MarchDate) : Prop :=
  a.year < b.year ∨ a.year = b.year ∧ (a.month < b.month ∨ a.month = b.month ∧ a.day < b.day)

theorem before_trichotomy (a b : MarchDate) : a.Before b ∨ a = b ∨ b.Before a := by
  obtain ⟨y, m, d⟩ := a
  obtain ⟨y', m', d'⟩ := b
  simp only [Before, mk.injEq]
  omega

theorem yearStart_mono {a b : ℤ} (h : a ≤ b) : yearStart a ≤ yearStart b := by
  unfold yearStart
  omega

variable {a b : MarchDate}

section

variable (ha : a.Valid) (hb : b.Valid)

include ha hb

theorem number_lt (h : a.Before b) : a.number < b.number := by
  have hmonth := hb.month_nonneg
  have hday := hb.day_pos
  have hstart : 0 ≤ monthStart b.month := by
    unfold monthStart
    omega
  unfold number
  rcases h with h | ⟨hyear, h | ⟨hm, hd⟩⟩
  · have hyears := yearStart_mono (show a.year + 1 ≤ b.year by omega)
    have := ha.in_year
    omega
  · have hle := ha.day_le (by have := hb.month_le; omega)
    have hmonths : monthStart (a.month + 1) ≤ monthStart b.month := by
      unfold monthStart
      omega
    rw [hyear]
    omega
  · rw [hyear, hm]
    omega

theorem number_lt_iff : a.number < b.number ↔ a.Before b := by
  refine ⟨fun h => ?_, number_lt ha hb⟩
  rcases before_trichotomy a b with hab | rfl | hba
  · exact hab
  · omega
  · have := number_lt hb ha hba
    omega

theorem number_inj (h : a.number = b.number) : a = b := by
  rcases before_trichotomy a b with hab | hab | hba
  · have := number_lt ha hb hab
    omega
  · exact hab
  · have := number_lt hb ha hba
    omega

end

/-! ## The date of a number -/

variable (n : ℤ)

/-- The century of a day. -/
def centuryOf : ℤ := (4 * n - 1) / 146097

/-- The days of the century before a day. -/
def centuryDay : ℤ := n - 1 - 146097 * centuryOf n / 4

/-- The year of the century. -/
def centuryYear : ℤ := (4 * centuryDay n + 3) / 1461

/-- The days of the year before a day. -/
def yearDay : ℤ := centuryDay n - 1461 * centuryYear n / 4

/-- The date with a number. -/
def ofNumber : MarchDate where
  year := 100 * centuryOf n + centuryYear n
  month := (5 * yearDay n + 2) / 153
  day := yearDay n - monthStart ((5 * yearDay n + 2) / 153) + 1

theorem centuryStart (century : ℤ) : 146097 * century / 4 = 36524 * century + century / 4 := by
  omega

theorem yearInCentury (year : ℤ) : 1461 * year / 4 = 365 * year + year / 4 := by
  omega

theorem centuryDay_bounds : 0 ≤ centuryDay n ∧ 4 * centuryDay n < 146094 + centuryOf n % 4 := by
  rw [centuryDay, centuryStart]
  unfold centuryOf
  omega

theorem centuryYear_bounds : 0 ≤ centuryYear n ∧ centuryYear n ≤ 99 := by
  have := centuryDay_bounds n
  unfold centuryYear
  omega

theorem yearDay_bounds : 0 ≤ yearDay n ∧ 4 * yearDay n < 1458 + centuryYear n % 4 := by
  rw [yearDay, yearInCentury]
  unfold centuryYear
  omega

theorem yearStart_century {century year : ℤ} (h0 : 0 ≤ year) (h : year ≤ 99) :
    yearStart (100 * century + year) = 146097 * century / 4 + 1461 * year / 4 := by
  have h4 : (100 * century + year) / 4 = 25 * century + year / 4 := by omega
  have h100 : (100 * century + year) / 100 = century := by omega
  have h400 : (100 * century + year) / 400 = century / 4 := by omega
  rw [yearStart, h4, h100, h400, centuryStart, yearInCentury]
  ring

theorem ofNumber_number : (ofNumber n).number = n := by
  obtain ⟨h0, h⟩ := centuryYear_bounds n
  simp only [ofNumber, number]
  rw [yearStart_century h0 h]
  unfold yearDay centuryDay
  omega

theorem ofNumber_valid : (ofNumber n).Valid := by
  have hday := yearDay_bounds n
  refine ⟨?_, ?_, ?_, ?_, ?_⟩
  · simp only [ofNumber]
    omega
  · simp only [ofNumber]
    omega
  · simp only [ofNumber, monthStart]
    omega
  · simp only [ofNumber, monthStart]
    omega
  · have hcentury := centuryDay_bounds n
    change (ofNumber n).number ≤ _
    rw [ofNumber_number]
    have hn : n = centuryDay n + 1 + (36524 * centuryOf n + centuryOf n / 4) := by
      rw [← centuryStart]
      unfold centuryDay
      omega
    simp only [ofNumber]
    by_cases hlast : centuryYear n = 99
    · rw [hlast, show 100 * centuryOf n + 99 + 1 = 100 * (centuryOf n + 1) + 0 by ring,
        yearStart_century (by omega) (by omega), centuryStart]
      omega
    · have hd : centuryDay n = yearDay n + (365 * centuryYear n + centuryYear n / 4) := by
        rw [← yearInCentury]
        unfold yearDay
        omega
      rw [add_assoc, yearStart_century (by omega) (by omega), centuryStart, yearInCentury]
      omega

theorem ofNumber_shift :
    ofNumber (n + 1753164) = { ofNumber n with year := (ofNumber n).year + 4800 } := by
  have hcentury : centuryOf (n + 1753164) = centuryOf n + 48 := by
    unfold centuryOf
    omega
  have hday : centuryDay (n + 1753164) = centuryDay n := by
    rw [centuryDay, centuryDay, hcentury]
    omega
  have hyear : centuryYear (n + 1753164) = centuryYear n := by rw [centuryYear, hday, centuryYear]
  have hyearDay : yearDay (n + 1753164) = yearDay n := by rw [yearDay, hday, hyear, yearDay]
  simp only [ofNumber, hcentury, hyear, hyearDay, mk.injEq, and_true]
  ring

variable {date : MarchDate}

/-- **The dates of the calendar are numbered without gaps.** -/
theorem ofNumber_eq_iff (hdate : date.Valid) : ofNumber n = date ↔ date.number = n := by
  constructor
  · rintro rfl
    exact ofNumber_number n
  · rintro rfl
    exact number_inj (ofNumber_valid _) hdate (ofNumber_number _)

/-! ## Years that begin in January -/

/-- The date in a year that begins in January. -/
def ofCivil (year month day : ℤ) : MarchDate :=
  if 2 < month then ⟨year, month - 3, day⟩ else ⟨year - 1, month + 9, day⟩

/-- The year that begins in January. -/
def civilYear (date : MarchDate) : ℤ := if date.month < 10 then date.year else date.year + 1

/-- The month, January is 1. -/
def civilMonth (date : MarchDate) : ℤ := if date.month < 10 then date.month + 3 else date.month - 9

theorem civil_ofCivil (year day : ℤ) {month : ℤ} (h0 : 1 ≤ month) (h : month ≤ 12) :
    (ofCivil year month day).civilYear = year ∧ (ofCivil year month day).civilMonth = month ∧
      (ofCivil year month day).day = day := by
  unfold ofCivil civilYear civilMonth
  by_cases hmonth : 2 < month
  · simp [hmonth, show month - 3 < 10 by omega]
  · simp [hmonth, show ¬ month + 9 < 10 by omega]

theorem ofCivil_civil (h : date.Valid) :
    ofCivil date.civilYear date.civilMonth date.day = date := by
  have := h.month_nonneg
  have := h.month_le
  obtain ⟨y, m, d⟩ := date
  simp only [ofCivil, civilYear, civilMonth] at *
  by_cases hm : m < 10
  · simp [hm, show 2 < m + 3 by omega]
  · simp [hm, show ¬ 2 < m - 9 by omega]

theorem civil_tenths (h : date.Valid) :
    date.civilYear = date.year + date.month / 10 ∧
      date.civilMonth = date.month + 3 - 12 * (date.month / 10) := by
  have := h.month_nonneg
  have := h.month_le
  unfold civilYear civilMonth
  split <;> omega

theorem civilMonth_bounds (h : date.Valid) : 1 ≤ date.civilMonth ∧ date.civilMonth ≤ 12 := by
  have := h.month_nonneg
  have := h.month_le
  unfold civilMonth
  omega

theorem ofCivil_before {year month day year' month' day' : ℤ} (h0 : 1 ≤ month)
    (h : month ≤ 12) (h0' : 1 ≤ month') (h' : month' ≤ 12) :
    (ofCivil year month day).Before (ofCivil year' month' day') ↔
      year < year' ∨ year = year' ∧ (month < month' ∨ month = month' ∧ day < day') := by
  unfold ofCivil Before
  split <;> split <;> simp only <;> omega

/-- The days of a month in a year that is no leap year. -/
def monthDays (month : ℤ) : ℤ :=
  if month = 2 then 28 else if month = 4 ∨ month = 6 ∨ month = 9 ∨ month = 11 then 30 else 31

/-- A year with a leap day. -/
def IsLeap (year : ℤ) : Prop := year % 4 = 0 ∧ year % 100 ≠ 0 ∨ year % 400 = 0

theorem ofCivil_valid_iff {year month day : ℤ} (h0 : 1 ≤ month) (h : month ≤ 12) :
    (ofCivil year month day).Valid ↔
      1 ≤ day ∧ (day ≤ monthDays month ∨ day = 29 ∧ month = 2 ∧ IsLeap year) := by
  constructor
  · rintro ⟨-, -, hday, hle, hyear⟩
    refine ⟨?_, ?_⟩
    · unfold ofCivil at hday
      split at hday <;> exact hday
    · simp only [ofCivil, yearStart, monthStart, monthDays, IsLeap] at *
      interval_cases month <;> simp at * <;> omega
  · rintro ⟨hday, hle⟩
    refine ⟨?_, ?_, ?_, ?_, ?_⟩ <;>
      simp only [ofCivil, yearStart, monthStart, monthDays, IsLeap] at * <;>
      interval_cases month <;> simp at * <;> omega

end MarchDate

end MagnusPS5.Lib
