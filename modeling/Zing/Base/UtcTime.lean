import Zing.Base.Date

set_option autoImplicit false

/-! # `TimeZone::toUtcTime` and `TimeZone::fromUtcTime`

The conversions between `time_t` and a broken-down time of UTC. A `time_t` has 64 bits, an
`int` 32; `toUtcTime` divides with truncation and corrects a negative remainder.
-/

namespace Zing.Base

open Lib

/-- `struct tm`, with the characters that `tm_zone` points to, if it points to any. -/
structure Tm where
  sec : Int
  min : Int
  hour : Int
  mday : Int
  mon : Int
  year : Int
  wday : Int
  yday : Int
  isdst : Int
  gmtoff : Int
  zone : Option (List UInt8)
deriving DecidableEq, Repr

/-- A `struct tm` whose memory is set to zero. -/
def Tm.zero : Tm where
  sec := 0
  min := 0
  hour := 0
  mday := 0
  mon := 0
  year := 0
  wday := 0
  yday := 0
  isdst := 0
  gmtoff := 0
  zone := none

/-- `detail::fillHMS`, where `seconds` is an `unsigned`. -/
def fillHMS (seconds : Nat) (utc : Tm) : Tm :=
  let minutes := seconds / 60
  { utc with
    sec := (seconds % 60 : Nat), min := (minutes % 60 : Nat), hour := (minutes / 60 : Nat) }

/-- `kSecondsPerDay` -/
def kSecondsPerDay : Int := 24 * 60 * 60

/-- `"GMT"` -/
def gmt : List UInt8 := [71, 77, 84]

/-- The correction of `toUtcTime` where the remainder is negative. -/
def correct (seconds days : Int) : Except Undefined (Int × Int) :=
  if seconds < 0 then do
    let seconds ← int ((seconds : Signed 32) + kSecondsPerDay)
    let days ← int (days - 1)
    return (seconds, days)
  else
    return (seconds, days)

/-- `TimeZone::toUtcTime` -/
def toUtcTime (secondsSinceEpoch : Int) (yday : Bool) : Except Undefined Tm := do
  let utc := { Tm.zero with zone := some gmt }
  let seconds := narrow 32 (← time_t ((secondsSinceEpoch : Signed 64) % kSecondsPerDay))
  let days := narrow 32 (← time_t ((secondsSinceEpoch : Signed 64) / kSecondsPerDay))
  let (seconds, days) ← correct seconds days
  let utc := fillHMS (toUnsigned 32 seconds) utc
  let epoch ← Date.kJulianDayOf1970_01_01
  let date := Date.mk (← int ((days : Signed 32) + epoch))
  let ymd ← date.yearMonthDay
  let year ← int (ymd.year - 1900)
  let mon ← int (ymd.month - 1)
  let wday ← date.weekDay
  let utc := { utc with year := year, mon := mon, mday := ymd.day, wday := wday }
  if yday then
    let startOfYear ← Date.ofCivil ymd.year 1 1
    let yday ← int ((date.julianDayNumber : Signed 32) - startOfYear.julianDayNumber)
    return { utc with yday := yday }
  else
    return utc

/-- `TimeZone::fromUtcTime(int year, int month, int day, int hour, int minute, int seconds)` -/
def fromUtcFields (year month day hour minute seconds : Int) : Except Undefined Int := do
  let date ← Date.ofCivil year month day
  let secondsInDay ← int (hour * 3600 + minute * 60 + seconds)
  let epoch ← Date.kJulianDayOf1970_01_01
  let days ← int ((date.julianDayNumber : Signed 32) - epoch)
  time_t ((days : Signed 64) * kSecondsPerDay + secondsInDay)

/-- `TimeZone::fromUtcTime(const struct tm& utc)` -/
def fromUtcTime (utc : Tm) : Except Undefined Int := do
  let year ← int (utc.year + 1900)
  let month ← int (utc.mon + 1)
  fromUtcFields year month utc.mday utc.hour utc.min utc.sec

/-! ## What the conversions compute -/

/-- The julian day numbers of the days that `toUtcTime` is used for. -/
def UtcRange (j : Int) : Prop := 0 ≤ j ∧ j ≤ 536838867

theorem UtcRange.inRange {j : Int} (h : UtcRange j) : InRange j :=
  ⟨by rw [UtcRange] at h; omega, h.2⟩

/-- The julian day number of the instant `t`. -/
def dayOf (t : Int) : Int := t / 86400 + 2440588

/-- The broken-down time of a second of a day. -/
def reading (c : Civil) (second : Int) (yday : Bool) : Tm :=
  { Tm.zero with
    sec := second % 60
    min := second / 60 % 60
    hour := second / 60 / 60
    mday := c.day
    mon := c.month - 1
    year := c.year - 1900
    wday := c.weekday
    yday := if yday then c.yearDay else 0
    zone := some gmt }

theorem kJulianDayOf1970_01_01_eq : Date.kJulianDayOf1970_01_01 = .ok 2440588 := rfl

variable {c : Civil} {t second : Int} {yday : Bool}

/-- Dividing an `unsigned` below 86400 is dividing a second of the day. -/
theorem fillHMS_eq (utc : Tm) (h₀ : 0 ≤ second) (h₁ : second < 86400) :
    fillHMS (toUnsigned 32 second) utc = { utc with
      sec := second % 60, min := second / 60 % 60, hour := second / 60 / 60 } := by
  have hn : toUnsigned 32 second = second.toNat := by
    rw [toUnsigned, Int.emod_eq_of_lt h₀ (by omega)]
  rw [fillHMS, hn]
  simp only [Tm.mk.injEq, and_true]
  omega

/-- Truncation and correction together are division with rounding down. -/
theorem correct_eq (h : Fits 32 (t / 86400)) :
    correct (t.tmod 86400) (t.tdiv 86400) = .ok (t % 86400, t / 86400) := by
  rw [fits_32] at h
  obtain ⟨hq, hrem⟩ | ⟨hq, hrem⟩ := trunc_or_floor t (by decide : (0 : Int) < 86400)
  · rw [correct, if_neg (by omega), hq, hrem]
    rfl
  · have hs : int ((t.tmod 86400 : Signed 32) + kSecondsPerDay) = .ok (t % 86400) := by
      simp (disch := omega) [kSecondsPerDay, hrem]
    have hd : int ((t.tdiv 86400 : Signed 32) - 1) = .ok (t / 86400) := by
      simp (disch := omega) [hq]
    rw [correct, if_pos (by omega), hs, ok_bind, hd]
    rfl

/-- The day of the week is that of the calendar. -/
theorem weekDay_eq (hr : UtcRange (julianDay c)) :
    (Date.mk (julianDay c)).weekDay = .ok c.weekday := by
  rw [UtcRange] at hr
  have hw : c.weekday = (julianDay c + 1) % 7 := by
    rw [Civil.weekday, julianDay]
    omega
  simp (disch := omega) [Date.weekDay, Date.kDaysPerWeek, hw]

/-- 1 January is in the range of the arithmetic if a day of its year is in the range here. -/
theorem inRange_newYear (h : c.Valid) (hr : UtcRange (julianDay c)) :
    InRange (julianDay ⟨c.year, 1, 1⟩) := by
  have hday := c.yearDay_eq
  have h₀ := h.yearDay_nonneg
  have h₁ := h.yearDay_lt
  have h₂ : daysInYear c.year ≤ 366 := by
    rw [daysInYear]
    split <;> omega
  simp only [UtcRange, julianDay] at hr
  simp only [InRange, julianDay]
  omega

/-- The first of January of a year in range is in range. -/
theorem startOfYear_eq (h : c.Valid) (hr : UtcRange (julianDay c)) :
    Date.ofCivil c.year 1 1 = .ok ⟨julianDay ⟨c.year, 1, 1⟩⟩ := by
  have hj := getJulianDayNumber_eq (Civil.valid_newYear c.year) (inRange_newYear h hr)
  rw [Date.ofCivil, hj]
  rfl

/-- The years of the range are small. -/
theorem year_mem (h : c.Valid) (hr : InRange (julianDay c)) :
    -4801 ≤ c.year ∧ c.year ≤ 1470000 := by
  have hy := marchYear_mem h hr
  have h₁ := h.month_pos
  have h₁₂ := h.month_le
  rw [marchYear] at hy
  omega

/-- No `int` overflows, and the fields are those of the date. -/
theorem toUtcTime_eq (h : c.Valid) (hj : julianDay c = dayOf t) (hr : UtcRange (dayOf t)) :
    toUtcTime t yday = .ok (reading c (t % 86400) yday) := by
  rw [← hj] at hr
  have hymd : (Date.mk (julianDay c)).yearMonthDay = .ok c := getYearMonthDay_julianDay h hr.inRange
  have hwday := weekDay_eq hr
  have hstart := startOfYear_eq h hr
  have hfill := fillHMS_eq { Tm.zero with zone := some gmt }
    (Int.emod_nonneg t (by decide : (86400 : Int) ≠ 0)) (Int.emod_lt_of_pos t (by decide))
  have hyears := year_mem h hr.inRange
  have h₁ := h.month_pos
  have h₁₂ := h.month_le
  have hlast := inRange_newYear h hr
  have hday : c.yearDay = julianDay c - julianDay ⟨c.year, 1, 1⟩ := by
    rw [Civil.yearDay_eq, julianDay, julianDay]
    omega
  rw [InRange] at hlast
  rw [UtcRange] at hr
  rw [dayOf] at hj
  have hquot := trunc_or_floor t (by decide : (0 : Int) < 86400)
  have hs : time_t ((t : Signed 64) % kSecondsPerDay) = .ok (t.tmod 86400) := by
    simp (disch := omega) [kSecondsPerDay, Signed.val_tmod]
  have hd : time_t ((t : Signed 64) / kSecondsPerDay) = .ok (t.tdiv 86400) := by
    simp (disch := omega) [kSecondsPerDay, Signed.val_tdiv]
  have hs' : narrow 32 (t.tmod 86400) = t.tmod 86400 :=
    narrow_eq (by decide) (by rw [fits_32]; omega)
  have hd' : narrow 32 (t.tdiv 86400) = t.tdiv 86400 :=
    narrow_eq (by decide) (by rw [fits_32]; omega)
  have hcorrect := correct_eq (t := t) (by rw [fits_32]; omega)
  have hdate : int ((t / 86400 : Int) + (2440588 : Int)) = .ok (julianDay c) := by
    simp (disch := omega) [hj]
  have hyear : int ((c.year : Signed 32) - 1900) = .ok (c.year - 1900) := by
    simp (disch := omega)
  have hmon : int ((c.month : Signed 32) - 1) = .ok (c.month - 1) := by
    simp (disch := omega)
  have hyday : int ((julianDay c : Signed 32) - julianDay ⟨c.year, 1, 1⟩) = .ok c.yearDay := by
    simp (disch := omega) [hday]
  simp only [toUtcTime, hs, hd, ok_bind, hs', hd', hcorrect, hfill, kJulianDayOf1970_01_01_eq,
    hdate, hymd, hyear, hmon, hwday, hstart, hyday]
  cases yday with
  | false => rfl
  | true => rfl

/-- Back to the second, in `time_t`. -/
theorem fromUtcFields_eq {hour minute : Int} (h : c.Valid) (hr : UtcRange (julianDay c))
    (hh : 0 ≤ hour ∧ hour ≤ 23) (hm : 0 ≤ minute ∧ minute ≤ 59) (hs : 0 ≤ second ∧ second ≤ 59) :
    fromUtcFields c.year c.month c.day hour minute second
      = .ok ((julianDay c - 2440588) * 86400 + (hour * 3600 + minute * 60 + second)) := by
  have hdate : Date.ofCivil c.year c.month c.day = .ok ⟨julianDay c⟩ := by
    rw [Date.ofCivil, getJulianDayNumber_eq h hr.inRange]
    rfl
  rw [UtcRange] at hr
  have hday : int ((hour : Signed 32) * 3600 + minute * 60 + second)
      = .ok (hour * 3600 + minute * 60 + second) := by
    simp (disch := omega)
  have hdays : int ((julianDay c : Signed 32) - (2440588 : Int)) = .ok (julianDay c - 2440588) := by
    simp (disch := omega)
  simp only [fromUtcFields, hdate, hday, kJulianDayOf1970_01_01_eq, hdays, ok_bind, kSecondsPerDay]
  simp (disch := omega)

/-- Going back from a reading of the calendar. -/
theorem fromUtcTime_reading (h : c.Valid) (hr : UtcRange (julianDay c)) (h₀ : 0 ≤ second)
    (h₁ : second < 86400) :
    fromUtcTime (reading c second yday) = .ok ((julianDay c - 2440588) * 86400 + second) := by
  have hyears := year_mem h hr.inRange
  have hm₁ := h.month_pos
  have hm₁₂ := h.month_le
  have hyear : int ((c.year - 1900 : Int) + 1900) = .ok c.year := by
    simp (disch := omega)
  have hmonth : int ((c.month - 1 : Int) + 1) = .ok c.month := by
    simp (disch := omega)
  simp only [fromUtcTime, reading, hyear, hmonth, ok_bind]
  rw [fromUtcFields_eq h hr (by omega) (by omega) (by omega)]
  congr 2
  omega

/-- Every instant of the range has its date. -/
theorem exists_date (hr : UtcRange (dayOf t)) :
    ∃ c : Civil, c.Valid ∧ julianDay c = dayOf t ∧
      ∀ yday, toUtcTime t yday = .ok (reading c (t % 86400) yday) := by
  obtain ⟨h, hj⟩ := ofJulianDay_valid (dayOf t)
  exact ⟨ofJulianDay (dayOf t), h, hj, fun _ => toUtcTime_eq h hj hr⟩

/-- `toUtcTime` and `fromUtcTime` undo each other, and what `toUtcTime` gives is the broken-down
time of the calendar: date, time of day, day of the week and day of the year. -/
theorem utcTime_round_trip :
    (∀ t, UtcRange (dayOf t) → ∀ yday, ∃ utc, toUtcTime t yday = .ok utc ∧
      fromUtcTime utc = .ok t) ∧
    (∀ t, UtcRange (dayOf t) → ∃ (utc : Tm) (c : Civil), toUtcTime t true = .ok utc ∧
      (0 ≤ utc.hour ∧ utc.hour ≤ 23) ∧ (0 ≤ utc.min ∧ utc.min ≤ 59) ∧
      (0 ≤ utc.sec ∧ utc.sec ≤ 59) ∧ c = ⟨utc.year + 1900, utc.mon + 1, utc.mday⟩ ∧ c.Valid ∧
      julianDay c = dayOf t ∧ utc.wday = c.weekday ∧ utc.wday = (t / 86400 + 4) % 7 ∧
      utc.yday = julianDay c - julianDay ⟨c.year, 1, 1⟩) ∧
    ∀ (c : Civil) (h mi s : Int) (yday : Bool), c.Valid → UtcRange (julianDay c) →
      0 ≤ h ∧ h ≤ 23 → 0 ≤ mi ∧ mi ≤ 59 → 0 ≤ s ∧ s ≤ 59 →
      ∃ t utc, fromUtcFields c.year c.month c.day h mi s = .ok t ∧ toUtcTime t yday = .ok utc ∧
        utc.year + 1900 = c.year ∧ utc.mon + 1 = c.month ∧ utc.mday = c.day ∧ utc.hour = h ∧
        utc.min = mi ∧ utc.sec = s := by
  refine ⟨?_, ?_, ?_⟩
  · intro t hr yday
    obtain ⟨c, h, hj, hutc⟩ := exists_date hr
    refine ⟨_, hutc yday, ?_⟩
    rw [fromUtcTime_reading h (hj ▸ hr) (by omega) (by omega), hj, dayOf]
    congr 1
    omega
  · intro t hr
    obtain ⟨c, h, hj, hutc⟩ := exists_date hr
    refine ⟨_, c, hutc true, ?_, ?_, ?_, ?_, h, hj, rfl, ?_, ?_⟩
    · simp only [reading]
      omega
    · simp only [reading]
      omega
    · simp only [reading]
      omega
    · simp only [reading, Int.sub_add_cancel]
    · rw [julianDay, dayOf] at hj
      simp only [reading, Civil.weekday]
      omega
    · have hday := c.yearDay_eq
      simp only [reading, julianDay, if_true]
      omega
  · intro c h mi s yday hc hr hh hmi hs
    have hfrom := fromUtcFields_eq hc hr hh hmi hs
    have hj : julianDay c = dayOf ((julianDay c - 2440588) * 86400 + (h * 3600 + mi * 60 + s)) := by
      rw [dayOf]
      omega
    have hsecond : ((julianDay c - 2440588) * 86400 + (h * 3600 + mi * 60 + s)) % 86400
        = h * 3600 + mi * 60 + s := by omega
    refine ⟨_, _, hfrom, toUtcTime_eq hc hj (hj ▸ hr), ?_⟩
    rw [hsecond]
    exact ⟨by simp only [reading, Int.sub_add_cancel], by simp only [reading, Int.sub_add_cancel],
      rfl, by simp only [reading]; omega, by simp only [reading]; omega,
      by simp only [reading]; omega⟩

theorem utcTime_round_trip_before_epoch :
    ∃ utc, toUtcTime (-1) true = .ok utc ∧ fromUtcTime utc = .ok (-1) :=
  utcTime_round_trip.1 (-1) ⟨by decide, by decide⟩ true

end Zing.Base
