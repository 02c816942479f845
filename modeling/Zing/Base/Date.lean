import Zing.Lib.CInt
import Zing.Lib.Calendar

set_option autoImplicit false

/-! # `Date`

The conversions of `Date.cpp` between civil dates and julian day numbers. The source counts a
year from 1 March, so that the leap day comes last, and a month from March on by the law of
`daysBeforeMonth_of_march`. All divisions truncate, which is the division of `Int` as long as
nothing is negative: the range of `InRange` begins at the first day for which that is so,
1 March -4800, and it ends where `4 * a + 3` does.
-/

namespace Zing.Base

open Lib

/-- `Date::YearMonthDay` -/
abbrev YearMonthDay := Civil

/-- `detail::getJulianDayNumber` -/
def getJulianDayNumber (year month day : Int) : Except Undefined Int := do
  let a ← int ((14 - month) / 12)
  let y ← int (year + 4800 - a)
  let m ← int (month + 12 * a - 3)
  int (day + (153 * m + 2) / 5 + y * 365 + y / 4 - y / 100 + y / 400 - 32045)

/-- `detail::getYearMonthDay` -/
def getYearMonthDay (julianDayNumber : Int) : Except Undefined YearMonthDay := do
  let a ← int (julianDayNumber + 32044)
  let b ← int ((4 * a + 3) / 146097)
  let c ← int (a - (b * 146097) / 4)
  let d ← int ((4 * c + 3) / 1461)
  let e ← int (c - (1461 * d) / 4)
  let m ← int ((5 * e + 2) / 153)
  let day ← int (e - (153 * m + 2) / 5 + 1)
  let month ← int (m + 3 - 12 * (m / 10))
  let year ← int (b * 100 + d - 4800 + m / 10)
  return ⟨year, month, day⟩

/-- `class Date` -/
structure Date where
  julianDayNumber : Int
deriving DecidableEq, Repr

namespace Date

def kDaysPerWeek : Int := 7

/-- `Date::kJulianDayOf1970_01_01`, which is computed when the program starts. -/
def kJulianDayOf1970_01_01 : Except Undefined Int := getJulianDayNumber 1970 1 1

/-- `Date(int y, int m, int d)` -/
def ofCivil (y m d : Int) : Except Undefined Date := do
  let julianDayNumber ← getJulianDayNumber y m d
  return ⟨julianDayNumber⟩

def yearMonthDay (date : Date) : Except Undefined YearMonthDay :=
  getYearMonthDay date.julianDayNumber

def weekDay (date : Date) : Except Undefined Int :=
  int ((date.julianDayNumber + 1) % kDaysPerWeek)

end Date

/-! ## The julian day numbers of the calendar -/

/-- The julian day number of a date. -/
def julianDay (c : Civil) : Int := c.dayNumber + 1721425

/-- The numbers for which the 32-bit arithmetic neither overflows nor meets a negative
dividend. -/
def InRange (j : Int) : Prop := -32044 ≤ j ∧ j ≤ 536838867

/-- January and February belong to the year before. -/
def marchYear (c : Civil) : Int := c.year + 4800 - (14 - c.month) / 12

/-- The months from March, which is 0. -/
def marchMonth (c : Civil) : Int := c.month + 12 * ((14 - c.month) / 12) - 3

/-- The days from 1 March. -/
def marchDay (c : Civil) : Int := (153 * marchMonth c + 2) / 5 + c.day - 1

variable {c : Civil}

theorem marchMonth_of_winter (h₁ : 1 ≤ c.month) (h₂ : c.month ≤ 2) :
    marchMonth c = c.month + 9 ∧ marchYear c = c.year + 4799 := by
  simp only [marchMonth, marchYear]
  omega

theorem marchMonth_of_march (h₃ : 3 ≤ c.month) (h₁₂ : c.month ≤ 12) :
    marchMonth c = c.month - 3 ∧ marchYear c = c.year + 4800 := by
  simp only [marchMonth, marchYear]
  omega

theorem marchMonth_mem (h : c.Valid) : 0 ≤ marchMonth c ∧ marchMonth c ≤ 11 := by
  have := h.month_pos
  have := h.month_le
  simp only [marchMonth]
  omega

theorem marchDay_nonneg (h : c.Valid) : 0 ≤ marchDay c := by
  have := (marchMonth_mem h).1
  have := h.day_pos
  simp only [marchDay]
  omega

/-- The leap day is the last day of a year from March. -/
theorem marchDay_le (h : c.Valid) :
    marchDay c ≤ 364 ∨ marchDay c = 365 ∧ IsLeap (marchYear c + 1) := by
  have hd := h.day_le
  by_cases hm : c.month = 2
  · obtain ⟨hmonth, hyear⟩ := marchMonth_of_winter h.month_pos (by omega)
    have hfeb : daysInMonth c.year 2 = if IsLeap c.year then 29 else 28 := rfl
    rw [hm, hfeb] at hd
    simp only [marchDay, hmonth, hyear, hm, IsLeap]
    by_cases hl : IsLeap c.year
    · rw [if_pos hl] at hd
      rw [IsLeap] at hl
      omega
    · rw [if_neg hl] at hd
      omega
  · have h₃₁ := daysInMonth_le c.year c.month
    have hjan : marchMonth c ≤ 10 := by
      have := h.month_pos
      have := h.month_le
      simp only [marchMonth]
      omega
    simp only [marchDay]
    omega

/-- The last two months of a year from March are in the next year. -/
theorem marchMonth_div (h : c.Valid) : marchMonth c / 10 = (14 - c.month) / 12 := by
  have h₁ := h.month_pos
  have h₁₂ := h.month_le
  by_cases hm : c.month ≤ 2
  · rw [(marchMonth_of_winter h₁ hm).1]
    omega
  · rw [(marchMonth_of_march (by omega) h₁₂).1]
    omega

/-- A month ends where the next one begins, and February before that. -/
theorem marchDay_lt_month (h : c.Valid) : marchDay c < (153 * (marchMonth c + 1) + 2) / 5 := by
  have hd := h.day_le
  by_cases hm : c.month ≤ 2
  · have h₃₁ := hd.trans (daysInMonth_le _ _)
    obtain ⟨hmonth, -⟩ := marchMonth_of_winter h.month_pos hm
    simp only [marchDay, hmonth]
    obtain h1 | h2 : c.month = 1 ∨ c.month = 2 := by
      have := h.month_pos
      omega
    · omega
    · have hfeb : daysInMonth c.year 2 ≤ 29 := by
        simp only [daysInMonth]
        split <;> omega
      rw [h2] at hd ⊢
      omega
  · obtain ⟨hmonth, -⟩ := marchMonth_of_march (by omega) h.month_le
    rw [daysInMonth_of_march _ (by omega) h.month_le] at hd
    have hnext : c.month - 3 + 1 = c.month - 2 := by omega
    rw [marchDay, hmonth, hnext]
    omega

/-- The julian day number, counted from March. -/
theorem julianDay_eq (h : c.Valid) :
    julianDay c = marchDay c + 365 * marchYear c + marchYear c / 4 - marchYear c / 100
      + marchYear c / 400 - 32044 := by
  simp only [julianDay, Civil.dayNumber, Civil.yearDay, marchDay]
  have h₁ := h.month_pos
  by_cases hm : c.month ≤ 2
  · obtain ⟨hmonth, hyear⟩ := marchMonth_of_winter h₁ hm
    rw [hmonth, hyear, daysBeforeMonth_of_winter _ h₁ hm, daysBeforeYear]
    omega
  · obtain ⟨hmonth, hyear⟩ := marchMonth_of_march (by omega) h.month_le
    have hle := h.month_le
    have hnext := daysBeforeYear_succ c.year
    rw [hmonth, hyear, daysBeforeMonth_of_march _ (by omega) (by omega)]
    simp only [daysBeforeYear] at hnext ⊢
    omega

/-- The range begins on 1 March -4800. -/
theorem marchYear_mem (h : c.Valid) (hr : InRange (julianDay c)) :
    0 ≤ marchYear c ∧ marchYear c ≤ 1470000 := by
  have hday := marchDay_nonneg h
  have hle := marchDay_le h
  rw [julianDay_eq h] at hr
  simp only [InRange, IsLeap] at hr hle
  omega

/-! ## Centuries, years and months

The divisions of `getYearMonthDay` find the century, the year in it and the month, because the
leap days come at the end. -/

section divisions

variable {y B D e : Int}

theorem century_split (y : Int) :
    365 * y + y / 4 - y / 100 + y / 400
      = 36524 * (y / 100) + y / 100 / 4 + 365 * (y % 100) + y % 100 / 4 := by
  omega

/-- The year before a leap year is the last of four, and a century ends with one only before
a multiple of 400. -/
theorem last_of_isLeap (h : IsLeap (y + 1)) :
    y % 100 % 4 = 3 ∧ (y % 100 = 99 → y / 100 % 4 = 3) := by
  rw [IsLeap] at h
  omega

theorem century_eq (hD₀ : 0 ≤ D) (hD : D ≤ 99) (he : 0 ≤ e)
    (h : e ≤ 364 ∨ e = 365 ∧ D % 4 = 3 ∧ (D = 99 → B % 4 = 3)) :
    (4 * (36524 * B + B / 4 + (365 * D + D / 4 + e)) + 3) / 146097 = B := by
  omega

theorem year_eq (he : 0 ≤ e) (h : e ≤ 364 ∨ e = 365 ∧ D % 4 = 3) :
    (4 * (365 * D + D / 4 + e) + 3) / 1461 = D := by
  omega

end divisions

theorem month_eq (h : c.Valid) : (5 * marchDay c + 2) / 153 = marchMonth c := by
  have hlt := marchDay_lt_month h
  have := h.day_pos
  have hday : marchDay c = (153 * marchMonth c + 2) / 5 + c.day - 1 := rfl
  omega

/-! ## The two conversions -/

theorem getJulianDayNumber_eq (h : c.Valid) (hr : InRange (julianDay c)) :
    getJulianDayNumber c.year c.month c.day = .ok (julianDay c) := by
  obtain ⟨hy₀, hy₁⟩ := marchYear_mem h hr
  obtain ⟨hm₀, hm₁⟩ := marchMonth_mem h
  have h₁ := h.month_pos
  have h₁₂ := h.month_le
  have hd₀ := h.day_pos
  have hd₁ := h.day_le.trans (daysInMonth_le _ _)
  have ha : int ((14 - c.month) / 12) = .ok ((14 - c.month) / 12) := by
    simp (disch := omega)
  have hy : int (c.year + 4800 - ((14 - c.month) / 12 : Int)) = .ok (marchYear c) := by
    rw [marchYear] at hy₀ hy₁
    simp (disch := omega) [marchYear]
  have hm : int (c.month + 12 * ((14 - c.month) / 12 : Int) - 3) = .ok (marchMonth c) := by
    simp (disch := omega) [marchMonth]
  rw [getJulianDayNumber, ha, ok_bind, hy, ok_bind, hm, ok_bind, julianDay_eq h, marchDay]
  simp (disch := omega)
  omega

/-- The date with the given julian day number. -/
def ofJulianDay (j : Int) : Civil :=
  let a := j + 32044
  let b := (4 * a + 3) / 146097
  let c := a - b * 146097 / 4
  let d := (4 * c + 3) / 1461
  let e := c - 1461 * d / 4
  let m := (5 * e + 2) / 153
  ⟨b * 100 + d - 4800 + m / 10, m + 3 - 12 * (m / 10), e - (153 * m + 2) / 5 + 1⟩

theorem ofJulianDay_julianDay (h : c.Valid) : ofJulianDay (julianDay c) = c := by
  have hday := marchDay_nonneg h
  have hleap : marchDay c ≤ 364 ∨ marchDay c = 365 ∧ marchYear c % 100 % 4 = 3 ∧
      (marchYear c % 100 = 99 → marchYear c / 100 % 4 = 3) :=
    (marchDay_le h).imp_right fun hl => ⟨hl.1, last_of_isLeap hl.2⟩
  have ha : julianDay c + 32044 = 36524 * (marchYear c / 100) + marchYear c / 100 / 4
      + (365 * (marchYear c % 100) + marchYear c % 100 / 4 + marchDay c) := by
    have := century_split (marchYear c)
    rw [julianDay_eq h]
    omega
  have hb := century_eq (by omega : 0 ≤ marchYear c % 100) (by omega) hday hleap
  rw [← ha] at hb
  have hc : julianDay c + 32044 - marchYear c / 100 * 146097 / 4
      = 365 * (marchYear c % 100) + marchYear c % 100 / 4 + marchDay c := by omega
  have hd := year_eq hday (hleap.imp_right fun hl => ⟨hl.1, hl.2.1⟩)
  have he : 365 * (marchYear c % 100) + marchYear c % 100 / 4 + marchDay c
      - 1461 * (marchYear c % 100) / 4 = marchDay c := by omega
  simp only [ofJulianDay, hb, hc, hd, he, month_eq h, marchMonth_div h]
  have hday' : marchDay c - (153 * marchMonth c + 2) / 5 + 1 = c.day := by
    rw [marchDay]
    omega
  have hmonth : marchMonth c + 3 - 12 * ((14 - c.month) / 12) = c.month := by
    rw [marchMonth]
    omega
  have hyear : marchYear c / 100 * 100 + marchYear c % 100 - 4800 + (14 - c.month) / 12
      = c.year := by
    have hdef : marchYear c = c.year + 4800 - (14 - c.month) / 12 := rfl
    omega
  rw [hday', hmonth, hyear]

/-- Every integer is the julian day number of a date. -/
theorem ofJulianDay_valid (j : Int) : (ofJulianDay j).Valid ∧ julianDay (ofJulianDay j) = j := by
  obtain ⟨c, hc, hn⟩ := Civil.exists_dayNumber (j - 1721425)
  have hj : julianDay c = j := by
    rw [julianDay, hn]
    omega
  rw [← hj, ofJulianDay_julianDay hc]
  exact ⟨hc, rfl⟩

/-- In the range the function computes the date without overflow. -/
theorem getYearMonthDay_eq {j : Int} (hr : InRange j) :
    getYearMonthDay j = .ok (ofJulianDay j) := by
  rw [InRange] at hr
  have ha : int (j + 32044) = .ok (j + 32044) := by
    simp (disch := omega)
  obtain ⟨a, haj⟩ : ∃ a, a = j + 32044 := ⟨_, rfl⟩
  rw [← haj] at ha
  have hb : int ((4 * (a : Int) + 3) / 146097) = .ok ((4 * a + 3) / 146097) := by
    simp (disch := omega)
  obtain ⟨b, hbj⟩ : ∃ b, b = (4 * a + 3) / 146097 := ⟨_, rfl⟩
  rw [← hbj] at hb
  have hc : int ((a : Int) - (b * 146097) / 4) = .ok (a - b * 146097 / 4) := by
    simp (disch := omega)
  obtain ⟨c, hcj⟩ : ∃ c, c = a - b * 146097 / 4 := ⟨_, rfl⟩
  rw [← hcj] at hc
  have hc₀ : 0 ≤ c ∧ c ≤ 36524 := by omega
  have hd : int ((4 * (c : Int) + 3) / 1461) = .ok ((4 * c + 3) / 1461) := by
    simp (disch := omega)
  obtain ⟨d, hdj⟩ : ∃ d, d = (4 * c + 3) / 1461 := ⟨_, rfl⟩
  rw [← hdj] at hd
  have he : int ((c : Int) - (1461 * d) / 4) = .ok (c - 1461 * d / 4) := by
    simp (disch := omega)
  obtain ⟨e, hej⟩ : ∃ e, e = c - 1461 * d / 4 := ⟨_, rfl⟩
  rw [← hej] at he
  have he₀ : 0 ≤ e ∧ e ≤ 365 := by omega
  have hm : int ((5 * (e : Int) + 2) / 153) = .ok ((5 * e + 2) / 153) := by
    simp (disch := omega)
  obtain ⟨m, hmj⟩ : ∃ m, m = (5 * e + 2) / 153 := ⟨_, rfl⟩
  rw [← hmj] at hm
  have hday : int ((e : Int) - (153 * m + 2) / 5 + 1) = .ok (e - (153 * m + 2) / 5 + 1) := by
    simp (disch := omega)
  have hmonth : int ((m : Int) + 3 - 12 * (m / 10)) = .ok (m + 3 - 12 * (m / 10)) := by
    simp (disch := omega)
  have hyear : int ((b : Int) * 100 + d - 4800 + m / 10) = .ok (b * 100 + d - 4800 + m / 10) := by
    simp (disch := omega)
  simp only [getYearMonthDay, ofJulianDay, ha, hb, hc, hd, he, hm, hday, hmonth, hyear, ok_bind,
    pure_eq_ok, ← haj, ← hbj, ← hcj, ← hdj, ← hej, ← hmj]

theorem getYearMonthDay_julianDay (h : c.Valid) (hr : InRange (julianDay c)) :
    getYearMonthDay (julianDay c) = .ok c := by
  rw [getYearMonthDay_eq hr, ofJulianDay_julianDay h]

theorem julianDay_lt_iff {c' : Civil} (h : c.Valid) (h' : c'.Valid) :
    c.Before c' ↔ julianDay c < julianDay c' := by
  rw [Civil.before_iff h h', julianDay, julianDay]
  omega

theorem julianDay_next (h : c.Valid) : julianDay c.next = julianDay c + 1 := by
  rw [julianDay, julianDay, Civil.dayNumber_next h]
  omega

/-- In the range the two conversions are inverse to each other and never overflow; the numbers
grow with the dates, and the next number is the day after. -/
theorem civil_julianDay_inverse :
    (∀ c : YearMonthDay, c.Valid → InRange (julianDay c) →
      getJulianDayNumber c.year c.month c.day = .ok (julianDay c) ∧
      getYearMonthDay (julianDay c) = .ok c) ∧
    (∀ j, InRange j → ∃ c : YearMonthDay, c.Valid ∧ getYearMonthDay j = .ok c ∧
      getJulianDayNumber c.year c.month c.day = .ok j) ∧
    (∀ (c c' : YearMonthDay) (j j' : Int), c.Valid → c'.Valid → InRange (julianDay c) →
      InRange (julianDay c') → getJulianDayNumber c.year c.month c.day = .ok j →
      getJulianDayNumber c'.year c'.month c'.day = .ok j' → (c.Before c' ↔ j < j')) ∧
    ∀ (j : Int) (c : YearMonthDay), InRange j → InRange (j + 1) → getYearMonthDay j = .ok c →
      getYearMonthDay (j + 1) = .ok c.next := by
  refine ⟨?_, ?_, ?_, ?_⟩
  · intro c h hr
    exact ⟨getJulianDayNumber_eq h hr, getYearMonthDay_julianDay h hr⟩
  · intro j hr
    obtain ⟨h, hj⟩ := ofJulianDay_valid j
    refine ⟨ofJulianDay j, h, getYearMonthDay_eq hr, ?_⟩
    rw [getJulianDayNumber_eq h (hj.symm ▸ hr), hj]
  · intro c c' j j' h h' hr hr' hj hj'
    rw [getJulianDayNumber_eq h hr] at hj
    rw [getJulianDayNumber_eq h' hr'] at hj'
    cases hj
    cases hj'
    exact julianDay_lt_iff h h'
  · intro j c hr hr' hc
    obtain ⟨h, hj⟩ := ofJulianDay_valid j
    rw [getYearMonthDay_eq hr] at hc
    cases hc
    have hnext : julianDay (ofJulianDay j).next = j + 1 := by rw [julianDay_next h, hj]
    rw [← hnext] at hr' ⊢
    exact getYearMonthDay_julianDay h.next hr'

theorem civil_julianDay_inverse_leapDay :
    getJulianDayNumber 2000 2 29 = .ok 2451604 ∧ getYearMonthDay 2451604 = .ok ⟨2000, 2, 29⟩ :=
  civil_julianDay_inverse.1 ⟨2000, 2, 29⟩ ⟨by decide, by decide, by decide, by decide⟩
    ⟨by decide, by decide⟩

/-- On the day before the range `y / 4` is truncated the other way, and the number computed is
that of the next day. -/
example : julianDay ⟨-4800, 2, 29⟩ = -32045 ∧ getJulianDayNumber (-4800) 2 29 = .ok (-32044) :=
  ⟨by decide, by rfl⟩

end Zing.Base
