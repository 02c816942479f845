import Mathlib.Algebra.BigOperators.Intervals
import Mathlib.Algebra.Order.BigOperators.Group.Finset
import Mathlib.Tactic.IntervalCases

set_option autoImplicit false

/-! # The proleptic Gregorian calendar

The dates of the Gregorian calendar, extended to all years; year 0 is the one before year 1.
`dayNumber` counts the days, with 1 January of year 1 as day 1. It grows with the date, takes
the day after a date to the next number, and every integer is the number of one date.
-/

namespace Zing.Lib

/-- The years that have a 29 February. -/
def IsLeap (y : Int) : Prop := y % 4 = 0 ∧ (y % 100 ≠ 0 ∨ y % 400 = 0)

instance (y : Int) : Decidable (IsLeap y) := inferInstanceAs (Decidable (_ ∧ _))

def daysInYear (y : Int) : Int := if IsLeap y then 366 else 365

def daysInMonth (y m : Int) : Int :=
  match m with
  | 2 => if IsLeap y then 29 else 28
  | 4 | 6 | 9 | 11 => 30
  | _ => 31

structure Civil where
  year : Int
  month : Int
  day : Int
deriving DecidableEq, Repr

/-- The date exists. -/
structure Civil.Valid (c : Civil) : Prop where
  month_pos : 1 ≤ c.month
  month_le : c.month ≤ 12
  day_pos : 1 ≤ c.day
  day_le : c.day ≤ daysInMonth c.year c.month

/-- The date `c` is earlier than `c'`. -/
def Civil.Before (c c' : Civil) : Prop :=
  c.year < c'.year ∨
    c.year = c'.year ∧ (c.month < c'.month ∨ c.month = c'.month ∧ c.day < c'.day)

/-- The day after `c`. -/
def Civil.next (c : Civil) : Civil :=
  if c.day < daysInMonth c.year c.month then ⟨c.year, c.month, c.day + 1⟩
  else if c.month < 12 then ⟨c.year, c.month + 1, 1⟩
  else ⟨c.year + 1, 1, 1⟩

/-! ## Counting days -/

/-- The days from 1 January of year 1 to the beginning of year `y`. -/
def daysBeforeYear (y : Int) : Int :=
  365 * (y - 1) + (y - 1) / 4 - (y - 1) / 100 + (y - 1) / 400

/-- The days of year `y` before month `m`. -/
def daysBeforeMonth (y m : Int) : Int :=
  ∑ k ∈ Finset.range (m - 1).toNat, daysInMonth y (k + 1)

/-- The days since 1 January of the year. -/
def Civil.yearDay (c : Civil) : Int := daysBeforeMonth c.year c.month + c.day - 1

def Civil.dayNumber (c : Civil) : Int := daysBeforeYear c.year + c.yearDay + 1

/-- The day of the week, from Sunday, which is 0. -/
def Civil.weekday (c : Civil) : Int := c.dayNumber % 7

theorem daysInMonth_pos (y m : Int) : 28 ≤ daysInMonth y m := by
  unfold daysInMonth
  split
  · split <;> omega
  all_goals omega

theorem daysInMonth_le (y m : Int) : daysInMonth y m ≤ 31 := by
  unfold daysInMonth
  split
  · split <;> omega
  all_goals omega

theorem daysBeforeYear_succ (y : Int) :
    daysBeforeYear (y + 1) = daysBeforeYear y + daysInYear y := by
  simp only [daysBeforeYear, daysInYear]
  by_cases hl : IsLeap y
  · rw [if_pos hl]
    rw [IsLeap] at hl
    omega
  · rw [if_neg hl]
    rw [IsLeap] at hl
    omega

theorem daysBeforeMonth_succ (y : Int) {m : Int} (h : 1 ≤ m) :
    daysBeforeMonth y (m + 1) = daysBeforeMonth y m + daysInMonth y m := by
  have hnext : (m + 1 - 1).toNat = (m - 1).toNat + 1 := by omega
  have hlast : ((m - 1).toNat : Int) + 1 = m := by omega
  rw [daysBeforeMonth, hnext, Finset.sum_range_succ, hlast]
  rfl

@[simp] theorem daysBeforeMonth_one (y : Int) : daysBeforeMonth y 1 = 0 := rfl

/-- The months from March on have 31 and 30 days in turns, but July and August, and December
and January, have 31 both. -/
theorem daysInMonth_of_march (y : Int) {m : Int} (h₃ : 3 ≤ m) (h₁₂ : m ≤ 12) :
    daysInMonth y m = (153 * (m - 2) + 2) / 5 - (153 * (m - 3) + 2) / 5 := by
  interval_cases m <;> rfl

theorem daysBeforeMonth_of_march (y : Int) {m : Int} (h₃ : 3 ≤ m) (h₁₃ : m ≤ 13) :
    daysBeforeMonth y m = (153 * (m - 3) + 2) / 5 + (daysInYear y - 306) := by
  induction m, h₃ using Int.leInduction with
  | base =>
      have h₁ := daysBeforeMonth_succ y (m := 1) (by decide)
      have h₂ := daysBeforeMonth_succ y (m := 2) (by decide)
      rw [daysBeforeMonth_one] at h₁
      simp only [Int.reduceAdd, daysInMonth] at h₁ h₂
      rw [h₂, h₁, daysInYear]
      by_cases hl : IsLeap y
      · rw [if_pos hl, if_pos hl]
        rfl
      · rw [if_neg hl, if_neg hl]
        rfl
  | succ m hm ih =>
      rw [daysBeforeMonth_succ y (by omega), ih (by omega), daysInMonth_of_march y hm (by omega)]
      omega

theorem daysBeforeMonth_of_winter (y : Int) {m : Int} (h₁ : 1 ≤ m) (h₂ : m ≤ 2) :
    daysBeforeMonth y m = 31 * (m - 1) := by
  obtain rfl | rfl : m = 1 ∨ m = 2 := by omega
  · rfl
  · have h := daysBeforeMonth_succ y (m := 1) (by decide)
    rw [daysBeforeMonth_one] at h
    exact h

/-- The months make up the year. -/
theorem daysBeforeMonth_thirteen (y : Int) : daysBeforeMonth y 13 = daysInYear y := by
  rw [daysBeforeMonth_of_march y (by decide) (by decide)]
  omega

/-- A month ends before a later one begins. -/
theorem daysBeforeMonth_le (y : Int) {m m' : Int} (h₁ : 1 ≤ m) (h : m < m') :
    daysBeforeMonth y m + daysInMonth y m ≤ daysBeforeMonth y m' := by
  rw [← daysBeforeMonth_succ y h₁]
  apply Finset.sum_le_sum_of_subset_of_nonneg
  · exact Finset.range_mono (by omega)
  · intro k _ _
    have := daysInMonth_pos y (k + 1)
    omega

/-- A year ends before a later one begins. -/
theorem daysBeforeYear_le {y y' : Int} (h : y < y') :
    daysBeforeYear y + daysInYear y ≤ daysBeforeYear y' := by
  rw [← daysBeforeYear_succ]
  simp only [daysBeforeYear]
  omega

namespace Civil

variable {c c' : Civil}

theorem Valid.yearDay_nonneg (h : c.Valid) : 0 ≤ c.yearDay := by
  have hsum : 0 ≤ daysBeforeMonth c.year c.month := by
    apply Finset.sum_nonneg
    intro k _
    have := daysInMonth_pos c.year (k + 1)
    omega
  have := h.day_pos
  rw [yearDay]
  omega

theorem Valid.yearDay_lt (h : c.Valid) : c.yearDay < daysInYear c.year := by
  have hend := daysBeforeMonth_le c.year h.month_pos (Int.lt_add_one_of_le h.month_le)
  rw [show (12 : Int) + 1 = 13 from rfl, daysBeforeMonth_thirteen] at hend
  have := h.day_le
  rw [yearDay]
  omega

theorem valid_newYear (y : Int) : (Civil.mk y 1 1).Valid :=
  have hday := daysInMonth_pos y 1
  ⟨by simp, by simp, by simp, by dsimp only; omega⟩

/-- The day of the year is the distance from 1 January. -/
theorem yearDay_eq (c : Civil) : c.yearDay = c.dayNumber - (Civil.mk c.year 1 1).dayNumber := by
  simp only [dayNumber, yearDay, daysBeforeMonth_one]
  omega

/-! ## The order of the dates -/

theorem dayNumber_lt (h : c.Valid) (h' : c'.Valid) (hb : c.Before c') :
    c.dayNumber < c'.dayNumber := by
  have hlt := h.yearDay_lt
  have hnonneg := h'.yearDay_nonneg
  simp only [dayNumber]
  rcases hb with hy | ⟨hy, hm | ⟨hm, hd⟩⟩
  · have := daysBeforeYear_le hy
    omega
  · have hmonth := daysBeforeMonth_le c.year h.month_pos hm
    have := h.day_le
    have := h'.day_pos
    simp only [yearDay, ← hy]
    omega
  · simp only [yearDay, ← hy, ← hm]
    omega

theorem before_or (c c' : Civil) : c.Before c' ∨ c = c' ∨ c'.Before c := by
  obtain ⟨y, m, d⟩ := c
  obtain ⟨y', m', d'⟩ := c'
  simp only [Before, mk.injEq]
  omega

theorem before_iff (h : c.Valid) (h' : c'.Valid) :
    c.Before c' ↔ c.dayNumber < c'.dayNumber := by
  constructor
  · exact dayNumber_lt h h'
  · intro hlt
    rcases before_or c c' with hb | rfl | hb
    · exact hb
    · omega
    · have := dayNumber_lt h' h hb
      omega

/-! ## The day after -/

theorem Valid.next (h : c.Valid) : c.next.Valid := by
  have := h.month_pos
  have := h.day_pos
  unfold Civil.next
  split
  · exact ⟨h.month_pos, h.month_le, by dsimp only; omega, by dsimp only; omega⟩
  · have := daysInMonth_pos c.year (c.month + 1)
    split
    · exact ⟨by dsimp only; omega, by dsimp only; omega, by dsimp only; omega,
        by dsimp only; omega⟩
    · exact valid_newYear _

theorem dayNumber_next (h : c.Valid) : c.next.dayNumber = c.dayNumber + 1 := by
  have := h.day_le
  unfold Civil.next
  split
  · simp only [dayNumber, yearDay]
    omega
  · have hlast : c.day = daysInMonth c.year c.month := by omega
    split
    · simp only [dayNumber, yearDay, daysBeforeMonth_succ _ h.month_pos]
      omega
    · have hdec : c.month = 12 := by have := h.month_le; omega
      have hyear := daysBeforeMonth_succ c.year h.month_pos
      rw [hdec] at hlast hyear
      rw [show (12 : Int) + 1 = 13 from rfl, daysBeforeMonth_thirteen] at hyear
      simp only [dayNumber, yearDay, daysBeforeYear_succ, daysBeforeMonth_one, hdec]
      omega

/-- 1 January 1970 was a Thursday. -/
example : (Civil.mk 1970 1 1).weekday = 4 := by decide

/-- From any day on, every number is reached. -/
theorem exists_of_le (h : c.Valid) (k : Nat) :
    ∃ c' : Civil, c'.Valid ∧ c'.dayNumber = c.dayNumber + k := by
  induction k with
  | zero => exact ⟨c, h, by simp⟩
  | succ k ih =>
      obtain ⟨c', h', hk⟩ := ih
      refine ⟨c'.next, h'.next, ?_⟩
      rw [dayNumber_next h', hk]
      omega

/-- Every integer is the number of a day. -/
theorem exists_dayNumber (n : Int) : ∃ c : Civil, c.Valid ∧ c.dayNumber = n := by
  obtain ⟨y, hy⟩ : ∃ y : Int, (Civil.mk y 1 1).dayNumber ≤ n := by
    refine ⟨min n 0, ?_⟩
    simp only [dayNumber, yearDay, daysBeforeMonth_one, daysBeforeYear]
    omega
  obtain ⟨c, hc, hn⟩ := exists_of_le (valid_newYear y) (n - (Civil.mk y 1 1).dayNumber).toNat
  refine ⟨c, hc, ?_⟩
  rw [hn]
  omega

end Civil

end Zing.Lib
