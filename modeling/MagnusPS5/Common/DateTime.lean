/-
`Date` of `dateTime.cpp`, a day counted in a `jd_t` of 32 bits. An operation on such numbers that
overflows is not defined, so that it has no value here. What a month or a day alone goes into does
not overflow and is not checked.
-/
import MagnusPS5.Lib.Calendar

namespace MagnusPS5.Common

open Lib Option MarchDate

/-- What an operation on `jd_t` makes. -/
def jd_t (x : ℤ) : Option ℤ := if -2 ^ 31 ≤ x ∧ x < 2 ^ 31 then some x else none

def FloorDiv (a b : ℤ) : Option ℤ := do
  if b < 0 ∧ a < 0 then jd_t (a.tdiv b)
  else
    let (a, b) ← if b < 0 then do pure (← jd_t (-a), ← jd_t (-b)) else pure (a, b)
    let dividend ← jd_t (a - if a < 0 then b - 1 else 0)
    jd_t (dividend.tdiv b)

def YmdToJd (year month day : ℤ) : Option ℤ := do
  let t_year := if year < 0 then year + 1 else year
  let a ← FloorDiv (14 - month) 12
  let shifted ← jd_t (t_year + 4800)
  let y ← jd_t (shifted - a)
  let m := month + 12 * a - 3
  let days ← FloorDiv (153 * m + 2) 5
  let years ← jd_t (365 * y)
  let sum ← jd_t (day + days + years)
  let sum ← jd_t (sum + (← FloorDiv y 4))
  let sum ← jd_t (sum - (← FloorDiv y 100))
  let sum ← jd_t (sum + (← FloorDiv y 400))
  jd_t (sum - 32045)

def JdToYmd (jd : ℤ) : Option (ℤ × ℤ × ℤ) := do
  let a ← jd_t (jd + 32044)
  let b ← FloorDiv (← jd_t ((← jd_t (4 * a)) + 3)) 146097
  let c ← jd_t (a - (← FloorDiv (← jd_t (146097 * b)) 4))
  let d ← FloorDiv (4 * c + 3) 1461
  let e ← jd_t (c - (← FloorDiv (1461 * d) 4))
  let m ← FloorDiv (5 * e + 2) 153
  let t_day := e - (← FloorDiv (153 * m + 2) 5) + 1
  let t_month := m + 3 - 12 * (← FloorDiv m 10)
  let t_year := 100 * b + d - 4800 + (← FloorDiv m 10)
  pure (if t_year ≤ 0 then t_year - 1 else t_year, t_month, t_day)

/-! ## What the operations make -/

theorem jd_t_eq {x : ℤ} (h0 : -2 ^ 31 ≤ x) (h : x < 2 ^ 31) : jd_t x = some x := if_pos ⟨h0, h⟩

theorem of_jd_t {x y : ℤ} (h : jd_t x = some y) : y = x ∧ -2 ^ 31 ≤ x ∧ x < 2 ^ 31 := by
  obtain ⟨hx, h⟩ := ite_none_right_eq_some.mp h
  exact ⟨(some.inj h).symm, hx⟩

theorem tdiv_eq_floor {a b : ℤ} (hb : 0 < b) : (a - if a < 0 then b - 1 else 0).tdiv b = a / b := by
  split
  · have hdiv : (b - 1 - a) / b = -(a / b) := by
      have hmod := Int.emod_lt_of_pos a hb
      have hmod0 := Int.emod_nonneg a hb.ne'
      have hsplit := Int.mul_ediv_add_emod a b
      rw [show b - 1 - a = (b - 1 - a % b) + b * -(a / b) by rw [mul_neg]; omega,
        Int.add_mul_ediv_left _ _ hb.ne', Int.ediv_eq_zero_of_lt (by omega) (by omega), zero_add]
    rw [show a - (b - 1) = -(b - 1 - a) by ring, Int.neg_tdiv,
      Int.tdiv_eq_ediv_of_nonneg (by omega), hdiv, neg_neg]
  · rw [sub_zero, Int.tdiv_eq_ediv_of_nonneg (by omega)]

theorem floorDiv_eq {a b : ℤ} (hb : 0 < b) (h0 : -2 ^ 31 ≤ a - (b - 1)) (h : a < 2 ^ 31) :
    FloorDiv a b = some (a / b) := by
  have hlo : -2 ^ 31 ≤ a / b := by
    rw [Int.le_ediv_iff_mul_le hb]
    nlinarith
  have hhi : a / b < 2 ^ 31 := by
    rw [Int.ediv_lt_iff_lt_mul hb]
    nlinarith
  unfold FloorDiv
  rw [if_neg (by omega), if_neg (by omega)]
  simp only [pure_def, bind_eq_bind, bind_some]
  rw [jd_t_eq (by split <;> omega) (by split <;> omega), bind_some, tdiv_eq_floor hb,
    jd_t_eq hlo hhi]

theorem of_floorDiv {a b q : ℤ} (hb : 0 < b) (h : FloorDiv a b = some q) :
    q = a / b ∧ (a < 0 → -2 ^ 31 ≤ a - (b - 1)) := by
  unfold FloorDiv at h
  rw [if_neg (by omega), if_neg (by omega)] at h
  simp only [pure_def, bind_eq_bind, bind_some] at h
  obtain ⟨dividend, hdividend, hq⟩ := bind_eq_some_iff.mp h
  obtain ⟨rfl, hlo, -⟩ := of_jd_t hdividend
  refine ⟨(of_jd_t hq).1.trans (tdiv_eq_floor hb), fun ha => ?_⟩
  rwa [if_pos ha] at hlo

section Steps

variable {β : Type} {x a b : ℤ} {f : ℤ → Option β}

theorem jd_t_isSome (h0 : -2 ^ 31 ≤ x) (h : x < 2 ^ 31) (hf : (f x).isSome = true) :
    (jd_t x >>= f).isSome = true := by
  rw [jd_t_eq h0 h]
  exact hf

theorem floorDiv_isSome (hb : 0 < b) (h0 : -2 ^ 31 ≤ a - (b - 1)) (h : a < 2 ^ 31)
    (hf : (f (a / b)).isSome = true) : (FloorDiv a b >>= f).isSome = true := by
  rw [floorDiv_eq hb h0 h]
  exact hf

theorem of_jd_t_bind {y : β} (h : jd_t x >>= f = some y) :
    (-2 ^ 31 ≤ x ∧ x < 2 ^ 31) ∧ f x = some y := by
  obtain ⟨_, hx, hf⟩ := bind_eq_some_iff.mp h
  obtain ⟨rfl, hbounds⟩ := of_jd_t hx
  exact ⟨hbounds, hf⟩

theorem of_floorDiv_bind {y : β} (hb : 0 < b) (h : FloorDiv a b >>= f = some y) :
    (a < 0 → -2 ^ 31 ≤ a - (b - 1)) ∧ f (a / b) = some y := by
  obtain ⟨_, hq, hf⟩ := bind_eq_some_iff.mp h
  obtain ⟨rfl, hbounds⟩ := of_floorDiv hb hq
  exact ⟨hbounds, hf⟩

end Steps

namespace Date

def DATE_JD_INVALID : ℤ := -2 ^ 31

def IsLeapYear (year : ℤ) : Bool :=
  let year := if year < 1 then year + 1 else year
  year.tmod 4 = 0 ∧ year.tmod 100 ≠ 0 ∨ year.tmod 400 = 0

def DaysInMonth (month : ℤ) : ℤ :=
  let month := if month < 1 ∨ 12 < month then 0 else month
  [0, 31, 28, 31, 30, 31, 30, 31, 31, 30, 31, 30, 31].getD month.toNat 0

def IsValid (year month day : ℤ) : Bool :=
  if year = 0 then false
  else 1 ≤ day ∧ (day ≤ DaysInMonth month ∨ day = 29 ∧ month = 2 ∧ IsLeapYear year)

/-- `Date::Set`: the day that a date has. -/
def Set (year month day : ℤ) : Option ℤ :=
  if IsValid year month day then YmdToJd year month day else some DATE_JD_INVALID

def DayOfWeek (m_jd : ℤ) : ℤ :=
  if m_jd = DATE_JD_INVALID then 0
  else if 0 ≤ m_jd then m_jd.tmod 7 + 1
  else (m_jd + 1).tmod 7 + 7

/-! ## The dates that are valid -/

/-- The number of a year, without a gap between the years -1 and 1. -/
def yearNumber (year : ℤ) : ℤ := if year < 0 then year + 1 else year

theorem isLeapYear_iff (year : ℤ) (h : year ≠ 0) :
    IsLeapYear year = true ↔ MarchDate.IsLeap (yearNumber year) := by
  have hyear : (if year < 1 then year + 1 else year) = yearNumber year := by
    unfold yearNumber
    split <;> split <;> omega
  have hmod : ∀ a b : ℤ, a.tmod b = 0 ↔ a % b = 0 := fun a b => by
    rw [← Int.dvd_iff_tmod_eq_zero, Int.dvd_iff_emod_eq_zero]
  simp only [IsLeapYear, hyear, MarchDate.IsLeap, decide_eq_true_eq, Ne, hmod]

theorem daysInMonth_eq {month : ℤ} (h0 : 1 ≤ month) (h : month ≤ 12) :
    DaysInMonth month = monthDays month := by
  interval_cases month <;> rfl

/-- The date as a date of a year that begins in March, in years after 4800 BC. -/
def march (year month day : ℤ) : MarchDate := MarchDate.ofCivil (yearNumber year + 4800) month day

theorem isValid_iff {year month day : ℤ} :
    IsValid year month day = true ↔
      year ≠ 0 ∧ 1 ≤ month ∧ month ≤ 12 ∧ (march year month day).Valid := by
  by_cases hyear : year = 0
  · simp [IsValid, hyear]
  have hleap : MarchDate.IsLeap (yearNumber year + 4800) ↔ MarchDate.IsLeap (yearNumber year) := by
    unfold MarchDate.IsLeap
    omega
  simp only [IsValid, hyear, if_false, decide_eq_true_eq, ne_eq, not_false_eq_true, true_and,
    isLeapYear_iff year hyear, ← hleap]
  by_cases hmonth : 1 ≤ month ∧ month ≤ 12
  · rw [march, ofCivil_valid_iff hmonth.1 hmonth.2, daysInMonth_eq hmonth.1 hmonth.2]
    exact ⟨fun h => ⟨hmonth.1, hmonth.2, h⟩, fun h => h.2.2⟩
  · have hdays : DaysInMonth month = 0 := by
      unfold DaysInMonth
      rw [if_pos (by omega)]
      rfl
    rw [hdays]
    omega

/-! ## Days and dates -/

theorem of_ymdToJd {year month day jd : ℤ} (h0 : 1 ≤ month) (h : month ≤ 12)
    (hjd : YmdToJd year month day = some jd) : jd = (march year month day).number - 32045 := by
  obtain ⟨-, hjd⟩ := of_floorDiv_bind (by decide) hjd
  obtain ⟨-, hjd⟩ := of_jd_t_bind hjd
  obtain ⟨-, hjd⟩ := of_jd_t_bind hjd
  obtain ⟨-, hjd⟩ := of_floorDiv_bind (by decide) hjd
  obtain ⟨-, hjd⟩ := of_jd_t_bind hjd
  obtain ⟨-, hjd⟩ := of_jd_t_bind hjd
  obtain ⟨-, hjd⟩ := of_floorDiv_bind (by decide) hjd
  obtain ⟨-, hjd⟩ := of_jd_t_bind hjd
  obtain ⟨-, hjd⟩ := of_floorDiv_bind (by decide) hjd
  obtain ⟨-, hjd⟩ := of_jd_t_bind hjd
  obtain ⟨-, hjd⟩ := of_floorDiv_bind (by decide) hjd
  obtain ⟨-, hjd⟩ := of_jd_t_bind hjd
  obtain ⟨rfl, -⟩ := of_jd_t hjd
  change _ + (153 * (month + 12 * ((14 - month) / 12) - 3) + 2) / 5
    + 365 * (yearNumber year + 4800 - (14 - month) / 12)
    + (yearNumber year + 4800 - (14 - month) / 12) / 4
    - (yearNumber year + 4800 - (14 - month) / 12) / 100
    + (yearNumber year + 4800 - (14 - month) / 12) / 400 - 32045 = _
  unfold march ofCivil number yearStart monthStart
  by_cases hmonth : 2 < month
  · rw [show (14 - month) / 12 = 0 by omega, if_pos hmonth]
    simp only [sub_zero, mul_zero, add_zero]
    ring
  · rw [show (14 - month) / 12 = 1 by omega, if_neg hmonth]
    simp only [mul_one]
    rw [show month + 12 - 3 = month + 9 by ring]
    ring

theorem ymdToJd_eq {year month day : ℤ} (h0 : 1 ≤ month) (h : month ≤ 12) (hday0 : 1 ≤ day)
    (hday : day ≤ 31) (hyear0 : -2000000 ≤ year) (hyear : year ≤ 2000000) :
    YmdToJd year month day = some ((march year month day).number - 32045) := by
  suffices hsome : (YmdToJd year month day).isSome = true by
    obtain ⟨jd, hjd⟩ := isSome_iff_exists.mp hsome
    rw [hjd, of_ymdToJd h0 h hjd]
  refine floorDiv_isSome (by decide) (by omega) (by omega) ?_
  generalize ha : (14 - month) / 12 = a
  refine jd_t_isSome (by omega) (by omega) (jd_t_isSome (by omega) (by omega) ?_)
  refine floorDiv_isSome (by decide) (by omega) (by omega) ?_
  generalize hdays : (153 * (month + 12 * a - 3) + 2) / 5 = days
  refine jd_t_isSome (by omega) (by omega) (jd_t_isSome (by omega) (by omega) ?_)
  refine floorDiv_isSome (by decide) (by omega) (by omega) (jd_t_isSome (by omega) (by omega) ?_)
  refine floorDiv_isSome (by decide) (by omega) (by omega) (jd_t_isSome (by omega) (by omega) ?_)
  refine floorDiv_isSome (by decide) (by omega) (by omega) (jd_t_isSome (by omega) (by omega) ?_)
  rw [jd_t_eq (by omega) (by omega)]
  rfl

/-- The days that have a date: the arithmetic of the others overflows. -/
def HasDate (jd : ℤ) : Prop := -536866432 ≤ jd ∧ jd ≤ 536838867

/-- The year, month and day of a date in years after 4800 BC. -/
def fields (date : MarchDate) : ℤ × ℤ × ℤ :=
  (if date.civilYear - 4800 ≤ 0 then date.civilYear - 4800 - 1 else date.civilYear - 4800,
    date.civilMonth, date.day)

theorem centuryOf_eq (jd : ℤ) : (4 * (jd + 32044) + 3) / 146097 = centuryOf (jd + 32045) := by
  rw [centuryOf, show 4 * (jd + 32044) + 3 = 4 * (jd + 32045) - 1 by ring]

theorem centuryDay_eq (jd : ℤ) :
    jd + 32044 - 146097 * centuryOf (jd + 32045) / 4
      = centuryDay (jd + 32045) := by
  rw [centuryDay, show jd + 32045 - 1 = jd + 32044 by ring]

variable {jd : ℤ}

theorem of_jdToYmd {date : ℤ × ℤ × ℤ} (h : JdToYmd jd = some date) :
    HasDate jd ∧ date = fields (ofNumber (jd + 32045)) := by
  obtain ⟨-, h⟩ := of_jd_t_bind h
  obtain ⟨⟨hlo, -⟩, h⟩ := of_jd_t_bind h
  obtain ⟨⟨-, hhi⟩, h⟩ := of_jd_t_bind h
  obtain ⟨hfloor, h⟩ := of_floorDiv_bind (by decide) h
  obtain ⟨-, h⟩ := of_jd_t_bind h
  obtain ⟨-, h⟩ := of_floorDiv_bind (by decide) h
  obtain ⟨-, h⟩ := of_jd_t_bind h
  obtain ⟨-, h⟩ := of_floorDiv_bind (by decide) h
  obtain ⟨-, h⟩ := of_floorDiv_bind (by decide) h
  obtain ⟨-, h⟩ := of_jd_t_bind h
  obtain ⟨-, h⟩ := of_floorDiv_bind (by decide) h
  obtain ⟨-, h⟩ := of_floorDiv_bind (by decide) h
  obtain ⟨-, h⟩ := of_floorDiv_bind (by decide) h
  obtain ⟨-, hdate⟩ := of_floorDiv_bind (by decide) h
  refine ⟨⟨by omega, by omega⟩, ?_⟩
  obtain ⟨hyear, hmonth⟩ := civil_tenths (ofNumber_valid (jd + 32045))
  rw [centuryOf_eq, centuryDay_eq] at hdate
  rw [fields, hyear, hmonth, add_sub_right_comm]
  exact (some.inj hdate).symm

/-- **`JdToYmd`** of a day that has a date. -/
theorem jdToYmd_eq (h : HasDate jd) : JdToYmd jd = some (fields (ofNumber (jd + 32045))) := by
  suffices hsome : (JdToYmd jd).isSome = true by
    obtain ⟨date, hdate⟩ := isSome_iff_exists.mp hsome
    rw [hdate, (of_jdToYmd hdate).2]
  obtain ⟨h0, h⟩ := h
  refine jd_t_isSome (by omega) (by omega) (jd_t_isSome (by omega) (by omega) ?_)
  refine jd_t_isSome (by omega) (by omega) (floorDiv_isSome (by decide) (by omega) (by omega) ?_)
  rw [centuryOf_eq]
  have hcentury := centuryDay_bounds (jd + 32045)
  have hcenturies : centuryOf (jd + 32045) ≤ 14699 ∧ -14699 ≤ centuryOf (jd + 32045) := by
    unfold centuryOf
    omega
  refine jd_t_isSome (by omega) (by omega) (floorDiv_isSome (by decide) (by omega) (by omega) ?_)
  rw [centuryDay_eq]
  refine jd_t_isSome (by omega) (by omega) (floorDiv_isSome (by decide) (by omega) (by omega) ?_)
  refine floorDiv_isSome (by decide) (by omega) (by omega) ?_
  refine jd_t_isSome (by omega) (by omega) (floorDiv_isSome (by decide) (by omega) (by omega) ?_)
  refine floorDiv_isSome (by decide) (by omega) (by omega) ?_
  refine floorDiv_isSome (by decide) (by omega) (by omega) ?_
  exact floorDiv_isSome (by decide) (by omega) (by omega) rfl

/-! ## Dates and back -/

/-- The dates whose days have a date: from July 13, 1474604 BC, to October 18, 1465102. -/
def Represented (year month day : ℤ) : Prop :=
  ¬ (march year month day).Before (march (-1474604) 7 13) ∧
    ¬ (march 1465102 10 18).Before (march year month day)

theorem march_fields {date : MarchDate} (h : date.Valid) :
    march (fields date).1 (fields date).2.1 (fields date).2.2 = date := by
  have hyear : yearNumber (fields date).1 + 4800 = date.civilYear := by
    unfold yearNumber fields
    split <;> split <;> omega
  rw [march, hyear]
  exact ofCivil_civil h

theorem isValid_fields {date : MarchDate} (h : date.Valid) :
    IsValid (fields date).1 (fields date).2.1 (fields date).2.2 = true := by
  obtain ⟨hmonth0, hmonth⟩ := civilMonth_bounds h
  refine isValid_iff.mpr ⟨?_, hmonth0, hmonth, (march_fields h).symm ▸ h⟩
  unfold fields
  split <;> omega

section Valid

variable {year month day : ℤ} (h : IsValid year month day = true)

include h

theorem fields_march : fields (march year month day) = (year, month, day) := by
  obtain ⟨hyear, hmonth0, hmonth, -⟩ := isValid_iff.mp h
  obtain ⟨hy, hm, hd⟩ := civil_ofCivil (yearNumber year + 4800) day hmonth0 hmonth
  rw [fields, march, hy, hm, hd, add_sub_cancel_right]
  unfold yearNumber
  simp only [Prod.mk.injEq, and_true]
  split <;> split <;> omega

theorem represented_iff :
    Represented year month day ↔ HasDate ((march year month day).number - 32045) := by
  obtain ⟨-, -, -, hvalid⟩ := isValid_iff.mp h
  have hfirst : (march (-1474604) 7 13).Valid := (isValid_iff.mp (by decide)).2.2.2
  have hlast : (march 1465102 10 18).Valid := (isValid_iff.mp (by decide)).2.2.2
  have hfirst' : (march (-1474604) 7 13).number = -536834387 := by decide
  have hlast' : (march 1465102 10 18).number = 536870912 := by decide
  rw [Represented, ← number_lt_iff hvalid hfirst, ← number_lt_iff hlast hvalid,
    hfirst', hlast', HasDate]
  omega

theorem day_le : 1 ≤ day ∧ day ≤ 31 := by
  obtain ⟨-, hmonth0, hmonth, hvalid⟩ := isValid_iff.mp h
  obtain ⟨hday0, hday⟩ := (ofCivil_valid_iff hmonth0 hmonth).mp hvalid
  refine ⟨hday0, ?_⟩
  unfold monthDays at hday
  omega

/-- **A valid date is given back exactly if its day has a date.** -/
theorem ymdToJd_round_trip :
    (YmdToJd year month day).bind JdToYmd = some (year, month, day) ↔
      Represented year month day := by
  obtain ⟨hyear, hmonth0, hmonth, hvalid⟩ := isValid_iff.mp h
  obtain ⟨hday0, hday⟩ := day_le h
  rw [represented_iff h]
  constructor
  · intro hdate
    obtain ⟨jd, hjd, hdate⟩ := bind_eq_some_iff.mp hdate
    exact of_ymdToJd hmonth0 hmonth hjd ▸ (of_jdToYmd hdate).1
  · intro hhas
    obtain ⟨hfirst, hlast⟩ := (represented_iff h).mpr hhas
    have hyears : -2000000 ≤ year ∧ year ≤ 2000000 := by
      simp only [march, ofCivil_before hmonth0 hmonth (show (1 : ℤ) ≤ 7 by decide)
        (by decide), ofCivil_before (show (1 : ℤ) ≤ 10 by decide) (by decide) hmonth0
        hmonth, yearNumber] at hfirst hlast
      omega
    rw [ymdToJd_eq hmonth0 hmonth hday0 hday hyears.1 hyears.2, bind_some, jdToYmd_eq hhas,
      sub_add_cancel, (ofNumber_eq_iff _ hvalid).mpr rfl, fields_march h]

end Valid

/-- A day that has a date is given back. -/
theorem jdToYmd_round_trip (h : HasDate jd) : ∃ year month day,
    JdToYmd jd = some (year, month, day) ∧ IsValid year month day = true ∧
      YmdToJd year month day = some jd := by
  have hvalid := ofNumber_valid (jd + 32045)
  have hdate := isValid_fields hvalid
  refine ⟨_, _, _, jdToYmd_eq h, hdate, ?_⟩
  have hround := (ymdToJd_round_trip hdate).mpr ((represented_iff hdate).mpr (by
    rwa [march_fields hvalid, ofNumber_number, add_sub_cancel_right]))
  obtain ⟨_, hmonth0, hmonth, -⟩ := isValid_iff.mp hdate
  obtain ⟨jd', hjd, -⟩ := bind_eq_some_iff.mp hround
  refine hjd.trans ?_
  rw [of_ymdToJd hmonth0 hmonth hjd, march_fields hvalid, ofNumber_number, add_sub_cancel_right]

theorem dayOfWeek_eq (h : jd ≠ DATE_JD_INVALID) : DayOfWeek jd = jd % 7 + 1 := by
  rw [DayOfWeek, if_neg h]
  split
  · rw [Int.tmod_eq_emod_of_nonneg (by assumption)]
  · rw [show jd + 1 = -(-jd - 1) by ring, Int.neg_tmod, Int.tmod_eq_emod_of_nonneg (by omega)]
    omega

theorem dayOfWeek_next (h : DATE_JD_INVALID < jd) : DayOfWeek (jd + 1) = DayOfWeek jd % 7 + 1 := by
  rw [dayOfWeek_eq h.ne', dayOfWeek_eq (by omega)]
  omega

end Date

end MagnusPS5.Common
