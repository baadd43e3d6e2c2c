/-
Ticks and date-times of `libRtc.cpp`. Steps of 64 bits are checked: one that overflows has no
value. The pointers that the functions are given are not null.
-/
import MagnusPS5.Common.DateTime

namespace MagnusPS5.Rtc

open Lib Common Date MarchDate

def OK : ℤ := 0
def RTC_ERROR_INVALID_VALUE : ℤ := -2135621629
def RTC_ERROR_INVALID_YEAR : ℤ := -2135621624
def RTC_ERROR_INVALID_MONTH : ℤ := -2135621623
def RTC_ERROR_INVALID_DAY : ℤ := -2135621622
def RTC_ERROR_INVALID_HOUR : ℤ := -2135621621
def RTC_ERROR_INVALID_MINUTE : ℤ := -2135621620
def RTC_ERROR_INVALID_SECOND : ℤ := -2135621619
def RTC_ERROR_INVALID_MICROSECOND : ℤ := -2135621618

@[ext]
structure RtcDateTime where
  year : ℤ
  month : ℤ
  day : ℤ
  hour : ℤ
  minute : ℤ
  second : ℤ
  microsecond : ℤ
  deriving DecidableEq

variable (time : RtcDateTime)

def RtcCheckValid : ℤ :=
  if time.year = 0 ∨ 9999 < time.year then RTC_ERROR_INVALID_YEAR
  else if time.month = 0 ∨ 12 < time.month then RTC_ERROR_INVALID_MONTH
  else if time.day = 0 ∨ Date.IsValid time.year time.month time.day = false then
    RTC_ERROR_INVALID_DAY
  else if 24 ≤ time.hour then RTC_ERROR_INVALID_HOUR
  else if 60 ≤ time.minute then RTC_ERROR_INVALID_MINUTE
  else if 60 ≤ time.second then RTC_ERROR_INVALID_SECOND
  else if 1000000 ≤ time.microsecond then RTC_ERROR_INVALID_MICROSECOND
  else OK

/-- What a step on `uint64_t` makes. -/
def uint64 (x : ℤ) : Option ℤ := if 0 ≤ x ∧ x < 2 ^ 64 then some x else none

/-- The answer, and what is in `*time`. -/
def RtcSetTick (tick : ℤ) : Option (ℤ × RtcDateTime) := do
  let usec := tick % 86400000000
  let days ← uint64 (tick / 86400000000 + 307)
  let j ← uint64 (4 * days)
  let j ← uint64 (j - 1)
  let ly := j / 146097
  let passed ← uint64 (146097 * ly)
  let j ← uint64 (j - passed)
  let ld := j / 4
  let numerator ← uint64 (4 * ld + 3)
  let j := numerator / 1461
  let passed ← uint64 (1461 * j)
  let left ← uint64 (4 * ld + 7 - passed)
  let ld := left / 4
  let numerator ← uint64 (5 * ld - 3)
  let lm := numerator / 153
  let left ← uint64 (5 * ld + 2 - 153 * lm)
  let ld := left / 5
  let ly ← uint64 (100 * ly + j)
  let lm' := if lm < 10 then lm + 3 else lm - 9
  let ly := if lm < 10 then ly else ly + 1
  if ly = 0 ∨ 9999 < ly then some (RTC_ERROR_INVALID_VALUE, time)
  else
    let time : RtcDateTime := {
      year := ly % 2 ^ 16
      month := lm' % 2 ^ 16
      day := ld % 2 ^ 16
      hour := usec / 3600000000 % 2 ^ 16
      minute := usec % 3600000000 / 60000000 % 2 ^ 16
      second := usec % 3600000000 % 60000000 / 1000000 % 2 ^ 16
      microsecond := usec % 3600000000 % 60000000 % 1000000 % 2 ^ 32 }
    some (RtcCheckValid time, time)

/-- The answer, and what is in `*tick`. -/
def RtcGetTick (tick : ℤ) : Option (ℤ × ℤ) :=
  if RtcCheckValid time ≠ OK then some (RtcCheckValid time, tick)
  else do
    let month := if 2 < time.month then time.month - 3 else time.month + 9
    let year ← uint64 (if 2 < time.month then time.year else time.year - 1)
    let c := year / 100
    let ya ← uint64 (year - 100 * c)
    let days ← uint64 (146097 * c / 4 + 1461 * ya / 4 + (153 * month + 2) / 5 + time.day)
    let days ← uint64 (days - 307)
    let days ← uint64 (days * 86400000000)
    let usec ← uint64 (time.hour * 3600000000 + time.minute * 60000000 + time.second * 1000000
      + time.microsecond)
    let tick ← uint64 (days + usec)
    some (OK, tick)

/-! ## Valid date-times -/

namespace RtcDateTime

/-- The fields are unsigned numbers. -/
structure Unsigned (time : RtcDateTime) : Prop where
  year : 0 ≤ time.year
  month : 0 ≤ time.month
  day : 0 ≤ time.day
  hour : 0 ≤ time.hour
  minute : 0 ≤ time.minute
  second : 0 ≤ time.second
  microsecond : 0 ≤ time.microsecond

/-- A date of the years 1 to 9999 and a time of a day. -/
structure Valid (time : RtcDateTime) : Prop where
  year : 1 ≤ time.year ∧ time.year ≤ 9999
  date : Date.IsValid time.year time.month time.day = true
  hour : 0 ≤ time.hour ∧ time.hour < 24
  minute : 0 ≤ time.minute ∧ time.minute < 60
  second : 0 ≤ time.second ∧ time.second < 60
  microsecond : 0 ≤ time.microsecond ∧ time.microsecond < 1000000

variable {time : RtcDateTime}

theorem valid_iff (h : time.Unsigned) : time.Valid ↔ RtcCheckValid time = OK := by
  obtain ⟨hyear, hmonth, hday, hhour, hminute, hsecond, hmicrosecond⟩ := h
  unfold RtcCheckValid
  constructor
  · rintro ⟨hyear, hdate, hhour, hminute, hsecond, hmicrosecond⟩
    obtain ⟨-, hmonth0, hmonth, -⟩ := isValid_iff.mp hdate
    have hday := day_le hdate
    rw [if_neg (by omega), if_neg (by omega), if_neg (by simp [hdate]; omega), if_neg (by omega),
      if_neg (by omega), if_neg (by omega), if_neg (by omega)]
  · intro h
    split_ifs at h with h1 h2 h3 h4 h5 h6 h7
    all_goals first | exact absurd h (by decide) | skip
    obtain ⟨-, hdate⟩ := not_or.mp h3
    exact ⟨by omega, by simpa using hdate, by omega, by omega, by omega, by omega⟩

theorem Valid.unsigned (h : time.Valid) : time.Unsigned := by
  obtain ⟨hyear, hdate, hhour, hminute, hsecond, hmicrosecond⟩ := h
  obtain ⟨-, hmonth, -⟩ := isValid_iff.mp hdate
  have hday := day_le hdate
  constructor <;> omega

variable (time : RtcDateTime)

/-- The microseconds of the day before a time. -/
def usec : ℤ :=
  time.hour * 3600000000 + time.minute * 60000000 + time.second * 1000000 + time.microsecond

/-- The days from January 1 of year 1 to a date. -/
def days : ℤ :=
  (Date.march time.year time.month time.day).number - 1753471

/-- The tick of a date-time. -/
def tick : ℤ := time.days * 86400000000 + time.usec

theorem Valid.usec_bounds (h : time.Valid) : 0 ≤ time.usec ∧ time.usec < 86400000000 := by
  obtain ⟨-, -, hhour, hminute, hsecond, hmicrosecond⟩ := h
  unfold usec
  omega

theorem Valid.march (h : time.Valid) : (march time.year time.month time.day).Valid :=
  (isValid_iff.mp h.date).2.2.2

theorem year_bounds {date : MarchDate} (h : date.Valid) :
    (1753471 ≤ date.number ↔ 1 ≤ (fields date).1) ∧
      (date.number ≤ 5405529 ↔ (fields date).1 ≤ 9999) := by
  have hdate := isValid_fields h
  obtain ⟨hyear, hmonth0, hmonth, -⟩ := isValid_iff.mp hdate
  have hday := day_le hdate
  have hfirst : (march 1 1 1).Valid := (isValid_iff.mp (by decide)).2.2.2
  have hlast : (march 9999 12 31).Valid := (isValid_iff.mp (by decide)).2.2.2
  have hbefore := number_lt_iff h hfirst
  have hafter := number_lt_iff hlast h
  rw [← march_fields h, show (march 1 1 1).number = 1753471 by decide, march,
    march, ofCivil_before hmonth0 hmonth (by decide) (by decide), ← march,
    march_fields h, yearNumber, yearNumber] at hbefore
  rw [← march_fields h, show (march 9999 12 31).number = 5405529 by decide, march,
    march, ofCivil_before (by decide) (by decide) hmonth0 hmonth, ← march,
    march_fields h, yearNumber, yearNumber] at hafter
  constructor <;> omega

theorem Valid.days_bounds (h : time.Valid) : 0 ≤ time.days ∧ time.days ≤ 3652058 := by
  have hyear := year_bounds h.march
  rw [fields_march h.date] at hyear
  have := h.year
  unfold days
  omega

end RtcDateTime

/-! ## What the functions make -/

section Steps

variable {β : Type} {x : ℤ} {f : ℤ → Option β} {y : β}

theorem uint64_bind (h0 : 0 ≤ x) (h : x < 2 ^ 64) (hf : f x = some y) :
    uint64 x >>= f = some y := by
  rw [uint64, if_pos ⟨h0, h⟩]
  exact hf

end Steps

theorem getTick_eq {time : RtcDateTime} (h : time.Valid) (hvalid : RtcCheckValid time = OK)
    (tick : ℤ) : RtcGetTick time tick = some (OK, time.tick) := by
  obtain ⟨hdays0, hdays⟩ := h.days_bounds
  obtain ⟨husec0, husec⟩ := h.usec_bounds
  have hyear := h.year
  rw [RtcGetTick, if_neg (not_not_intro hvalid)]
  generalize hm : (if 2 < time.month then time.month - 3 else time.month + 9) = m
  generalize hy : (if 2 < time.month then time.year else time.year - 1) = year
  have hdays' : 146097 * (year / 100) / 4 + 1461 * (year - 100 * (year / 100)) / 4
      + (153 * m + 2) / 5 + time.day = time.days + 307 := by
    have hnumber : (march time.year time.month time.day).number
        = yearStart (year + 4800) + monthStart m + time.day := by
      rw [march, yearNumber, if_neg (by omega), ← hm, ← hy]
      unfold number ofCivil
      split <;> ring_nf
    have hyears : yearStart (year + 4800) = yearStart year + 1753164 := by
      unfold yearStart
      omega
    rw [← yearStart_century (by omega) (by omega), add_sub_cancel, RtcDateTime.days,
      hnumber, hyears, monthStart]
    ring
  refine uint64_bind (by omega) (by omega) (uint64_bind (by omega) (by omega) ?_)
  rw [hdays']
  refine uint64_bind (by omega) (by omega) (uint64_bind (by omega) (by omega) ?_)
  rw [add_sub_cancel_right]
  refine uint64_bind (by omega) (by omega) (uint64_bind husec0 (husec.trans (by decide)) ?_)
  change uint64 (time.days * 86400000000 + time.usec) >>= _ = _
  exact uint64_bind (by omega) (by omega) rfl

/-- The ticks of the years 1 to 9999 are those below this one. -/
def ticksEnd : ℤ := 3652059 * 86400000000

/-- The date-time of a tick. -/
def ofTick (tick : ℤ) : RtcDateTime :=
  let date := Date.fields (MarchDate.ofNumber (tick / 86400000000 + 1753471))
  let usec := tick % 86400000000
  { year := date.1
    month := date.2.1
    day := date.2.2
    hour := usec / 3600000000
    minute := usec % 3600000000 / 60000000
    second := usec % 3600000000 % 60000000 / 1000000
    microsecond := usec % 3600000000 % 60000000 % 1000000 }

theorem ofTick_valid {tick : ℤ} (h0 : 0 ≤ tick) (h : tick < ticksEnd) : (ofTick tick).Valid := by
  have hdate := ofNumber_valid (tick / 86400000000 + 1753471)
  have hyear := RtcDateTime.year_bounds hdate
  rw [ofNumber_number] at hyear
  unfold ticksEnd at h
  refine ⟨?_, isValid_fields hdate, ?_, ?_, ?_, ?_⟩ <;> simp only [ofTick] <;> omega

theorem ofTick_tick (tick : ℤ) : (ofTick tick).tick = tick := by
  have hdate := ofNumber_valid (tick / 86400000000 + 1753471)
  unfold RtcDateTime.tick RtcDateTime.days RtcDateTime.usec
  simp only [ofTick]
  rw [march_fields hdate, ofNumber_number]
  omega

variable {a b : RtcDateTime}

theorem tick_inj (ha : a.Valid) (hb : b.Valid) (h : a.tick = b.tick) : a = b := by
  have husec := ha.usec_bounds
  have husec' := hb.usec_bounds
  unfold RtcDateTime.tick at h
  have hdays : a.days = b.days := by omega
  have hdate : march a.year a.month a.day = march b.year b.month b.day :=
    number_inj ha.march hb.march (by unfold RtcDateTime.days at hdays; omega)
  have hfields := congrArg fields hdate
  rw [fields_march ha.date, fields_march hb.date] at hfields
  simp only [Prod.mk.injEq] at hfields
  obtain ⟨-, -, hhour, hminute, hsecond, hmicrosecond⟩ := ha
  obtain ⟨-, -, hhour', hminute', hsecond', hmicrosecond'⟩ := hb
  unfold RtcDateTime.usec at h
  ext
  · exact hfields.1
  · exact hfields.2.1
  · exact hfields.2.2
  all_goals omega

theorem centuryDay_eq (D : ℤ) : (4 * D - 1 - 146097 * centuryOf D) / 4 = centuryDay D := by
  rw [centuryDay, centuryStart]
  omega

theorem yearDay_eq (D : ℤ) :
    (4 * centuryDay D + 7 - 1461 * centuryYear D) / 4
      = yearDay D + 1 := by
  rw [yearDay, yearInCentury]
  omega

theorem fields_shift (D : ℤ) : fields (ofNumber (D + 1753164)) =
    (if (ofNumber D).civilYear ≤ 0 then (ofNumber D).civilYear - 1
      else (ofNumber D).civilYear,
      (ofNumber D).civilMonth, (ofNumber D).day) := by
  have hyear : (ofNumber (D + 1753164)).civilYear - 4800 = (ofNumber D).civilYear := by
    rw [ofNumber_shift, civilYear, civilYear]
    split <;> ring
  rw [fields, hyear, ofNumber_shift]
  rfl

theorem setTick_eq (time : RtcDateTime) {tick : ℤ} (h0 : 0 ≤ tick) (h : tick < 2 ^ 64) :
    RtcSetTick time tick =
      some (if tick < ticksEnd then (OK, ofTick tick) else (RTC_ERROR_INVALID_VALUE, time)) := by
  obtain ⟨D, hD⟩ : ∃ D, D = tick / 86400000000 + 307 := ⟨_, rfl⟩
  have hcentury0 : 0 ≤ centuryOf D ∧ centuryOf D < 10000 := by
    unfold centuryOf
    omega
  have hcentury := centuryDay_bounds D
  have hyear := centuryYear_bounds D
  have hday := yearDay_bounds D
  have hpassed : 0 ≤ 4 * D - 1 - 146097 * centuryOf D := by
    unfold centuryOf
    omega
  have hpassed' : 0 ≤ 4 * centuryDay D + 7 - 1461 * centuryYear D := by
    unfold centuryYear
    omega
  rw [RtcSetTick, ← hD]
  refine uint64_bind (by omega) (by omega) (uint64_bind (by omega) (by omega)
    (uint64_bind (by omega) (by omega) ?_))
  change uint64 (146097 * centuryOf D) >>= _ = _
  refine uint64_bind (by omega) (by omega) (uint64_bind hpassed (by omega) ?_)
  rw [centuryDay_eq]
  refine uint64_bind (by omega) (by omega) ?_
  change uint64 (1461 * centuryYear D) >>= _ = _
  refine uint64_bind (by omega) (by omega) ?_
  refine uint64_bind hpassed' (by omega) ?_
  rw [yearDay_eq]
  refine uint64_bind (by omega) (by omega) ?_
  rw [show 5 * (yearDay D + 1) - 3 = 5 * yearDay D + 2 by ring]
  refine uint64_bind (by omega) (by omega) ?_
  change uint64 (100 * centuryOf D + centuryYear D) >>= _ = _
  refine uint64_bind (by omega) (by omega) ?_
  change (if (ofNumber D).civilYear = 0 ∨ 9999 < (ofNumber D).civilYear then _
    else some (RtcCheckValid ⟨(ofNumber D).civilYear % 2 ^ 16,
      (ofNumber D).civilMonth % 2 ^ 16, _, _, _, _, _⟩, _)) = _
  have hfields := fields_shift D
  rw [hD, add_assoc, show (307 : ℤ) + 1753164 = 1753471 by decide, ← hD] at hfields
  have hdate := ofNumber_valid (tick / 86400000000 + 1753471)
  by_cases htick : tick < ticksEnd
  · have hvalid := ofTick_valid h0 htick
    obtain ⟨hyear0, hyear'⟩ := hvalid.year
    have hmonth := civilMonth_bounds (ofNumber_valid D)
    have hfield : (ofTick tick).year = (ofNumber D).civilYear := by
      unfold ofTick at hyear0 ⊢
      simp only [hfields] at hyear0 ⊢
      split at hyear0
      · omega
      · rw [if_neg (by assumption)]
    have htime : .mk ((ofNumber D).civilYear % 2 ^ 16)
        ((ofNumber D).civilMonth % 2 ^ 16)
        ((5 * (yearDay D + 1) + 2 - 153 * ((5 * yearDay D + 2) / 153)) / 5
          % 2 ^ 16)
        (tick % 86400000000 / 3600000000 % 2 ^ 16)
        (tick % 86400000000 % 3600000000 / 60000000 % 2 ^ 16)
        (tick % 86400000000 % 3600000000 % 60000000 / 1000000 % 2 ^ 16)
        (tick % 86400000000 % 3600000000 % 60000000 % 1000000 % 2 ^ 32) = ofTick tick := by
      ext
      · rw [hfield]
        exact Int.emod_eq_of_lt (by omega) (by omega)
      · simp only [ofTick, hfields]
        omega
      · have hday' : (5 * (yearDay D + 1) + 2
            - 153 * ((5 * yearDay D + 2) / 153)) / 5 = (ofNumber D).day := by
          simp only [ofNumber, monthStart]
          omega
        have hdays := day_le hvalid.date
        simp only [ofTick, hfields] at hdays ⊢
        rw [hday']
        exact Int.emod_eq_of_lt (by omega) (by omega)
      all_goals
        simp only [ofTick]
        omega
    rw [if_pos htick, if_neg (by omega)]
    refine congrArg some (Prod.ext ?_ htime)
    exact (congrArg RtcCheckValid htime).trans ((RtcDateTime.valid_iff hvalid.unsigned).mp hvalid)
  · have hbounds := RtcDateTime.year_bounds hdate
    rw [ofNumber_number, hfields] at hbounds
    rw [if_neg htick, if_pos]
    unfold ticksEnd at htick
    split at hbounds <;> omega

/-! ## Order -/

namespace RtcDateTime

/-- An earlier time of a day. -/
def EarlierInDay (a b : RtcDateTime) : Prop :=
  a.hour < b.hour ∨ a.hour = b.hour ∧ (a.minute < b.minute ∨ a.minute = b.minute ∧
    (a.second < b.second ∨ a.second = b.second ∧ a.microsecond < b.microsecond))

/-- An earlier date-time, by the fields from the year on. -/
def Earlier (a b : RtcDateTime) : Prop :=
  a.year < b.year ∨ a.year = b.year ∧ (a.month < b.month ∨ a.month = b.month ∧
    (a.day < b.day ∨ a.day = b.day ∧ a.EarlierInDay b))

section

variable (ha : a.Valid) (hb : b.Valid)

include ha hb

theorem usec_lt_iff : a.usec < b.usec ↔ a.EarlierInDay b := by
  obtain ⟨-, -, hhour, hminute, hsecond, hmicrosecond⟩ := ha
  obtain ⟨-, -, hhour', hminute', hsecond', hmicrosecond'⟩ := hb
  unfold usec EarlierInDay
  omega

theorem days_lt_iff : a.days < b.days ↔
      a.year < b.year ∨ a.year = b.year ∧ (a.month < b.month ∨ a.month = b.month ∧ a.day < b.day) := by
  obtain ⟨-, hmonth0, hmonth, -⟩ := isValid_iff.mp ha.date
  obtain ⟨-, hmonth0', hmonth', -⟩ := isValid_iff.mp hb.date
  have := ha.year
  have := hb.year
  rw [days, days, sub_lt_sub_iff_right, number_lt_iff ha.march hb.march, march,
    march, ofCivil_before hmonth0 hmonth hmonth0' hmonth', yearNumber,
    yearNumber, if_neg (by omega), if_neg (by omega)]
  omega

theorem tick_lt_iff : a.tick < b.tick ↔ a.Earlier b := by
  have husec := ha.usec_bounds
  have husec' := hb.usec_bounds
  have hdays := days_lt_iff ha hb
  have hdays' := days_lt_iff hb ha
  rw [Earlier, ← usec_lt_iff ha hb, tick, tick]
  omega

end

end RtcDateTime

/-- **Ticks and calendar agree.** No step overflows for any tick. The valid date-times and the
ticks below `ticksEnd` are mapped to one another in order, and other ticks are rejected. The days
of the ticks are those of `Date`, whose dates are given back where their days have a date. -/
theorem ticks_and_calendar_agree :
    (∀ time : RtcDateTime, time.Unsigned → RtcCheckValid time = OK →
      ∃ tick, 0 ≤ tick ∧ tick < ticksEnd ∧
        (∀ before, RtcGetTick time before = some (OK, tick)) ∧
        (∀ before, RtcSetTick before tick = some (OK, time)) ∧
        Date.Set time.year time.month time.day = some (tick / 86400000000 + 1721426)) ∧
    (∀ tick, 0 ≤ tick → tick < ticksEnd →
      ∃ time : RtcDateTime, time.Unsigned ∧ RtcCheckValid time = OK ∧
        (∀ before, RtcSetTick before tick = some (OK, time)) ∧
        ∀ before, RtcGetTick time before = some (OK, tick)) ∧
    (∀ tick time, ticksEnd ≤ tick → tick < 2 ^ 64 →
      RtcSetTick time tick = some (RTC_ERROR_INVALID_VALUE, time)) ∧
    (∀ a b : RtcDateTime, a.Unsigned → b.Unsigned → RtcCheckValid a = OK → RtcCheckValid b = OK →
      ∀ before tick_a tick_b, RtcGetTick a before = some (OK, tick_a) →
        RtcGetTick b before = some (OK, tick_b) → (tick_a < tick_b ↔ a.Earlier b)) ∧
    (∀ year month day, Date.IsValid year month day = true →
      ((Date.Set year month day).bind JdToYmd = some (year, month, day) ↔
        Date.Represented year month day)) ∧
    (∀ jd, Date.HasDate jd →
      (∃ year month day, JdToYmd jd = some (year, month, day) ∧
        Date.IsValid year month day = true ∧ Date.Set year month day = some jd) ∧
      Date.DayOfWeek (jd + 1) = Date.DayOfWeek jd % 7 + 1) := by
  have hend : ticksEnd < 2 ^ 64 := by decide
  refine ⟨fun time hunsigned hok => ?_, fun tick h0 h => ?_, fun tick time h0 h => ?_,
    fun a b ha hb hoka hokb before tick_a tick_b hta htb => ?_, fun year month day hdate => ?_,
    fun jd hjd => ⟨?_, Date.dayOfWeek_next (lt_of_lt_of_le (by decide) hjd.1)⟩⟩
  · have hvalid := (RtcDateTime.valid_iff hunsigned).mpr hok
    obtain ⟨hdays0, hdays⟩ := hvalid.days_bounds
    obtain ⟨husec0, husec⟩ := hvalid.usec_bounds
    have h0 : 0 ≤ time.tick := by
      unfold RtcDateTime.tick
      omega
    have hlt : time.tick < ticksEnd := by
      unfold RtcDateTime.tick ticksEnd
      omega
    refine ⟨time.tick, h0, hlt, getTick_eq hvalid hok, fun before => ?_, ?_⟩
    · rw [setTick_eq before h0 (by omega), if_pos hlt,
        tick_inj (ofTick_valid h0 hlt) hvalid (ofTick_tick _)]
    · obtain ⟨-, hmonth0, hmonth, -⟩ := Date.isValid_iff.mp hvalid.date
      have hday := Date.day_le hvalid.date
      have hyear := hvalid.year
      have hdiv : time.tick / 86400000000 = time.days := by
        unfold RtcDateTime.tick
        omega
      rw [Date.Set, if_pos hvalid.date, Date.ymdToJd_eq hmonth0 hmonth hday.1 hday.2 (by omega)
        (by omega), hdiv, RtcDateTime.days]
      exact congrArg some (by ring)
  · have hvalid := ofTick_valid h0 h
    have hok := (RtcDateTime.valid_iff hvalid.unsigned).mp hvalid
    refine ⟨ofTick tick, hvalid.unsigned, hok, fun before => ?_, fun before => ?_⟩
    · rw [setTick_eq before h0 (by omega), if_pos h]
    · rw [getTick_eq hvalid hok, ofTick_tick]
  · rw [setTick_eq time (le_trans (by decide) h0) h, if_neg (by omega)]
  · have hva := (RtcDateTime.valid_iff ha).mpr hoka
    have hvb := (RtcDateTime.valid_iff hb).mpr hokb
    rw [getTick_eq hva hoka] at hta
    rw [getTick_eq hvb hokb] at htb
    simp only [Option.some.injEq, Prod.mk.injEq, true_and] at hta htb
    rw [← hta, ← htb]
    exact RtcDateTime.tick_lt_iff hva hvb
  · rw [Date.Set, if_pos hdate]
    exact Date.ymdToJd_round_trip hdate
  · obtain ⟨year, month, day, hymd, hdate, hround⟩ := Date.jdToYmd_round_trip hjd
    exact ⟨year, month, day, hymd, hdate, by rwa [Date.Set, if_pos hdate]⟩

theorem valid_date_not_given_back :
    Date.IsValid 2000000 1 1 = true ∧
      (Date.Set 2000000 1 1).bind JdToYmd ≠ some (2000000, 1, 1) := by
  decide

end MagnusPS5.Rtc
