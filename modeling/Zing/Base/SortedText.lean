import Zing.Base.LogTime
import Zing.Lib.SortKey

set_option autoImplicit false

/-! # Times as texts that sort

Numbers that are filled up to a width, with zeros or with blanks, sort as their values do, and so
do the texts of a broken-down time, as long as the year has four characters.
-/

namespace Zing.Base

open Lib

namespace Detail

variable {w : Nat}

/-! ## Numbers -/

/-- The numbers that `w` digits hold. -/
def HasWidth (w : Nat) (v : Int) : Prop := 0 ≤ v ∧ v < 10 ^ w

/-- The digits are in the order of their values. -/
theorem glyph_lt_iff {d e : Nat} (hd : d < 10) (he : e < 10) : glyph d < glyph e ↔ d < e := by
  rw [UInt8.lt_iff_toNat_lt, glyph_toNat hd, glyph_toNat he]
  omega

theorem glyph_eq_iff {d e : Nat} (hd : d < 10) (he : e < 10) : glyph d = glyph e ↔ d = e := by
  rw [← UInt8.toNat_inj, glyph_toNat hd, glyph_toNat he]
  omega

theorem lt_singleton_iff {a b : UInt8} : [a] < [b] ↔ a < b := by
  rw [List.cons_lt_cons_iff]
  simp

/-- The last digit of a number. -/
theorem sorts_digit (P : Nat → Prop) : Sorts P (fun u v => u % 10 < v % 10)
    (fun u v => u % 10 = v % 10) 1 fun v => [glyph (v % 10)] where
  length := fun _ _ => rfl
  lt_iff := by
    intro u v _ _
    rw [lt_singleton_iff]
    exact glyph_lt_iff (Nat.mod_lt u (by decide)) (Nat.mod_lt v (by decide))
  eq_iff := by
    intro u v _ _
    rw [List.singleton_inj]
    exact glyph_eq_iff (Nat.mod_lt u (by decide)) (Nat.mod_lt v (by decide))

/-- A number with the character `c` in front, up to the width `w`. -/
def fill (c : UInt8) (w v : Nat) : List UInt8 :=
  List.replicate (w - (numeral 10 v).length) c ++ numeral 10 v

/-- `%0*d` of what is not negative fills with zeros, -/
theorem padZero_eq_fill {v : Int} (h : 0 ≤ v) : padZero w v = fill 48 w v.natAbs :=
  padZero_of_nonneg h

/-- and `%*d` with blanks. -/
theorem padSpace_eq_fill {v : Int} (h : 0 ≤ v) : padSpace w v = fill 32 w v.natAbs := by
  rw [padSpace, decimal_of_nonneg h]
  rfl

/-- One digit, and nothing but filling in front of it. -/
theorem fill_of_lt (c : UInt8) {v : Nat} (h : v < 10) :
    fill c (w + 1) v = List.replicate w c ++ [glyph v] := by
  rw [fill, numeral_of_lt h]
  rfl

/-- More digits: the last one behind a filled number of one place less. -/
theorem fill_of_le (c : UInt8) {v : Nat} (h : 10 ≤ v) :
    fill c (w + 1) v = fill c w (v / 10) ++ [glyph (v % 10)] := by
  have hlen : (numeral 10 v).length = (numeral 10 (v / 10)).length + 1 := by
    rw [numeral_of_le (by decide) h, List.length_append, List.length_singleton]
  rw [fill, fill, hlen, Nat.add_sub_add_right, numeral_of_le (by decide : 1 < 10) h,
    List.append_assoc]

/-- In front of the last digit stands the number without it, filled up with zeros alike. -/
theorem fill_zero_succ (v : Nat) :
    fill 48 (w + 2) v = fill 48 (w + 1) (v / 10) ++ [glyph (v % 10)] := by
  by_cases h : v < 10
  · rw [fill_of_lt 48 h, Nat.div_eq_of_lt h, Nat.mod_eq_of_lt h,
      fill_of_lt 48 (by decide : 0 < 10), List.replicate_succ']
    rfl
  · exact fill_of_le 48 (by omega)

theorem div_lt_pow {v : Nat} (hv : v < 10 ^ (w + 1)) : v / 10 < 10 ^ w := by
  rw [pow_succ] at hv
  exact Nat.div_lt_of_lt_mul (by omega)

/-- By induction on the width: the front decides, and where it is equal the last digit does. -/
theorem sorts_fill_zero (w : Nat) :
    Sorts (fun v => v < 10 ^ (w + 1)) (· < ·) (· = ·) (w + 1) (fill 48 (w + 1)) := by
  induction w with
  | zero =>
      have hdigit : ∀ v, v < 10 ^ (0 + 1) → fill 48 (0 + 1) v = [glyph (v % 10)] := by
        intro v hv
        have hlt : v < 10 := by simpa using hv
        rw [fill_of_lt 48 hlt, Nat.mod_eq_of_lt hlt]
        rfl
      refine ((sorts_digit _).congr_text hdigit).congr ?_ ?_
      · intro u v hu hv
        rw [zero_add, pow_one] at hu hv
        rw [Nat.mod_eq_of_lt hu, Nat.mod_eq_of_lt hv]
      · intro u v hu hv
        rw [zero_add, pow_one] at hu hv
        rw [Nat.mod_eq_of_lt hu, Nat.mod_eq_of_lt hv]
  | succ w ih =>
      have hsplit := (ih.comap (· / 10) fun v => div_lt_pow).append (sorts_digit _)
      refine (hsplit.congr_text fun v _ => fill_zero_succ v).congr ?_ ?_
      · intro u v _ _
        omega
      · intro u v _ _
        omega

/-- The front of a number that is filled up with blanks: nothing but blanks instead of 0. -/
def front (w v : Nat) : List UInt8 := if v = 0 then List.replicate w 32 else fill 32 w v

/-- The last character of a front. -/
def lastOf (v : Nat) : UInt8 := if v = 0 then 32 else glyph (v % 10)

/-- A blank stands before every digit, so a shorter number does too. -/
theorem blank_lt_glyph {d : Nat} (h : d < 10) : (32 : UInt8) < glyph d := by
  rw [UInt8.lt_iff_toNat_lt, glyph_toNat h]
  show 32 < 48 + d
  omega

/-- A front ends in its own last character. -/
theorem front_succ (v : Nat) : front (w + 1) v = front w (v / 10) ++ [lastOf v] := by
  by_cases hzero : v = 0
  · subst hzero
    rw [front, if_pos rfl, List.replicate_succ']
    rfl
  · rw [front, if_neg hzero, lastOf, if_neg hzero]
    by_cases h : v < 10
    · rw [fill_of_lt 32 h, Nat.div_eq_of_lt h, Nat.mod_eq_of_lt h]
      rfl
    · rw [fill_of_le 32 (by omega), front, if_neg (by omega)]

theorem fill_blank_succ (v : Nat) :
    fill 32 (w + 1) v = front w (v / 10) ++ [glyph (v % 10)] := by
  by_cases h : v < 10
  · rw [fill_of_lt 32 h, Nat.div_eq_of_lt h, Nat.mod_eq_of_lt h]
    rfl
  · rw [fill_of_le 32 (by omega), front, if_neg (by omega)]

/-- Last characters sort as the last digits, with 0 in front of all of them. -/
theorem sorts_lastOf (P : Nat → Prop) :
    Sorts P (fun u v => v ≠ 0 ∧ (u = 0 ∨ u % 10 < v % 10))
      (fun u v => u = 0 ∧ v = 0 ∨ u ≠ 0 ∧ v ≠ 0 ∧ u % 10 = v % 10) 1 fun v => [lastOf v] where
  length := fun _ _ => rfl
  lt_iff := by
    intro u v _ _
    rw [lt_singleton_iff, lastOf, lastOf]
    have hu := Nat.mod_lt u (show 10 > 0 by decide)
    have hv := Nat.mod_lt v (show 10 > 0 by decide)
    have hblank := blank_lt_glyph hv
    have hblank' := blank_lt_glyph hu
    by_cases hu₀ : u = 0
    · by_cases hv₀ : v = 0
      · simp [hu₀, hv₀]
      · simp [hu₀, hv₀, hblank]
    · by_cases hv₀ : v = 0
      · simp [hu₀, hv₀, UInt8.le_of_lt hblank']
      · simp [hu₀, hv₀, glyph_lt_iff hu hv]
  eq_iff := by
    intro u v _ _
    rw [List.singleton_inj, lastOf, lastOf]
    have hu := Nat.mod_lt u (show 10 > 0 by decide)
    have hv := Nat.mod_lt v (show 10 > 0 by decide)
    have hblank := blank_lt_glyph hv
    have hblank' := blank_lt_glyph hu
    by_cases hu₀ : u = 0
    · by_cases hv₀ : v = 0
      · simp [hu₀, hv₀]
      · simp [hu₀, hv₀, UInt8.ne_of_lt hblank]
    · by_cases hv₀ : v = 0
      · simp [hu₀, hv₀, (UInt8.ne_of_lt hblank').symm]
      · simp [hu₀, hv₀, glyph_eq_iff hu hv]

/-- Fronts sort as the numbers, 0 included. -/
theorem sorts_front (w : Nat) : Sorts (fun v => v < 10 ^ w) (· < ·) (· = ·) w (front w) := by
  induction w with
  | zero =>
      have hzero : ∀ v, v < 10 ^ 0 → v = 0 := by
        intro v hv
        simpa using hv
      constructor
      case length =>
        intro v hv
        rw [hzero v hv]
        rfl
      case lt_iff =>
        intro u v hu hv
        rw [hzero u hu, hzero v hv]
        simp
      case eq_iff =>
        intro u v hu hv
        rw [hzero u hu, hzero v hv]
        simp
  | succ w ih =>
      have hsplit := (ih.comap (· / 10) fun v => div_lt_pow).append (sorts_lastOf _)
      refine (hsplit.congr_text fun v _ => front_succ v).congr ?_ ?_
      · intro u v _ _
        omega
      · intro u v _ _
        omega

theorem sorts_fill_blank (w : Nat) :
    Sorts (fun v => v < 10 ^ (w + 1)) (· < ·) (· = ·) (w + 1) (fill 32 (w + 1)) := by
  have hsplit := ((sorts_front w).comap (· / 10) fun v => div_lt_pow).append (sorts_digit _)
  refine (hsplit.congr_text fun v _ => fill_blank_succ v).congr ?_ ?_
  · intro u v _ _
    omega
  · intro u v _ _
    omega

/-- The value of an integer that is not negative. -/
theorem sorts_natAbs {f : Nat → List UInt8} {g : Int → List UInt8} {n : Nat}
    (h : Sorts (fun v => v < 10 ^ w) (· < ·) (· = ·) n f)
    (hg : ∀ v : Int, 0 ≤ v → g v = f v.natAbs) : Sorts (HasWidth w) (· < ·) (· = ·) n g := by
  have hbound : ∀ v : Int, HasWidth w v → v.natAbs < 10 ^ w := by
    intro v hv
    zify
    rw [abs_of_nonneg hv.1]
    exact hv.2
  refine ((h.comap Int.natAbs hbound).congr_text fun v hv => hg v hv.1).congr ?_ ?_
  · intro u v hu hv
    have := hu.1
    have := hv.1
    omega
  · intro u v hu hv
    have := hu.1
    have := hv.1
    omega

theorem sorts_padZero (w : Nat) :
    Sorts (HasWidth (w + 1)) (· < ·) (· = ·) (w + 1) (padZero (w + 1)) :=
  sorts_natAbs (sorts_fill_zero w) fun _ => padZero_eq_fill

theorem sorts_padSpace (w : Nat) :
    Sorts (HasWidth (w + 1)) (· < ·) (· = ·) (w + 1) (padSpace (w + 1)) :=
  sorts_natAbs (sorts_fill_blank w) fun _ => padSpace_eq_fill

end Detail

open Detail

/-! ## Dates -/

/-- Year, month and day, with a separator. -/
def civilText (sep : List UInt8) (c : Civil) : List UInt8 :=
  padSpace 4 c.year ++ sep ++ padZero 2 c.month ++ sep ++ padZero 2 c.day

/-- A date that exists, in a year of at most four digits. -/
def InFourDigits (c : Civil) : Prop := c.Valid ∧ HasWidth 4 c.year

theorem InFourDigits.month {c : Civil} (h : InFourDigits c) : HasWidth 2 c.month := by
  have := h.1.month_pos
  have := h.1.month_le
  constructor
  · omega
  · show c.month < 100
    omega

theorem InFourDigits.day {c : Civil} (h : InFourDigits c) : HasWidth 2 c.day := by
  have := h.1.day_pos
  have := Int.le_trans h.1.day_le (daysInMonth_le _ _)
  constructor
  · omega
  · show c.day < 100
    omega

/-- A separator that is the same in both texts decides nothing, and the two digits of a month or a
day sort as these do. -/
theorem sorts_civilText (sep : List UInt8) (hsep : ¬ sep < sep) :
    Sorts InFourDigits (fun c c' => julianDay c < julianDay c') (· = ·)
      (4 + sep.length + 2 + sep.length + 2) (civilText sep) := by
  have hyear := (sorts_padSpace 3).comap Civil.year fun c (hc : InFourDigits c) => hc.2
  have hmonth := (sorts_padZero 1).comap Civil.month fun c (hc : InFourDigits c) => hc.month
  have hday := (sorts_padZero 1).comap Civil.day fun c (hc : InFourDigits c) => hc.day
  have htext := (((hyear.append (Sorts.const sep hsep)).append hmonth).append
    (Sorts.const sep hsep)).append hday
  refine htext.congr ?_ ?_
  · intro c c' hc hc'
    rw [← julianDay_lt_iff hc.1 hc'.1, Civil.Before]
    tauto
  · rintro ⟨year, month, day⟩ ⟨year', month', day'⟩ _ _
    rw [Civil.mk.injEq]
    tauto

/-! ## Times of day -/

/-- Hour, minute and second of a second of the day, with a separator. -/
def clockText (sep : List UInt8) (s : Int) : List UInt8 :=
  padZero 2 (s / 60 / 60) ++ sep ++ padZero 2 (s / 60 % 60) ++ sep ++ padZero 2 (s % 60)

/-- The seconds of one day. -/
def InDay (s : Int) : Prop := 0 ≤ s ∧ s < 86400

theorem hasWidth_two {v : Int} (h₀ : 0 ≤ v) (h : v < 100) : HasWidth 2 v := ⟨h₀, h⟩

/-- Hour, minute and second are the digits of the second to the bases 24, 60 and 60. -/
theorem sorts_clockText (sep : List UInt8) (hsep : ¬ sep < sep) :
    Sorts InDay (· < ·) (· = ·) (2 + sep.length + 2 + sep.length + 2) (clockText sep) := by
  have hhour := (sorts_padZero 1).comap (fun s : Int => s / 60 / 60) fun s (hs : InDay s) =>
    hasWidth_two (by have := hs.1; omega) (by have := hs.2; omega)
  have hmin := (sorts_padZero 1).comap (fun s : Int => s / 60 % 60) fun s (hs : InDay s) =>
    hasWidth_two (by omega) (by omega)
  have hsec := (sorts_padZero 1).comap (fun s : Int => s % 60) fun s (hs : InDay s) =>
    hasWidth_two (by omega) (by omega)
  have htext := (((hhour.append (Sorts.const sep hsep)).append hmin).append
    (Sorts.const sep hsep)).append hsec
  refine htext.congr ?_ ?_
  · intro s t _ _
    simp only [and_true, and_false, or_false]
    omega
  · intro s t _ _
    simp only [and_true]
    omega

/-! ## Instants -/

/-- The second is in a year of at most four digits. -/
def InYears (s : Int) : Prop := -62167219200 ≤ s ∧ s < 253402300800

/-- The two bounds are the first second of the year 0 and the last of the year 9999. -/
theorem inFourDigits_of_inYears {s : Int} (h : InYears s) :
    InFourDigits (ofJulianDay (dayOf s)) := by
  obtain ⟨hvalid, hday⟩ := ofJulianDay_valid (dayOf s)
  have hlow : ¬ (ofJulianDay (dayOf s)).Before ⟨0, 1, 1⟩ := by
    rw [julianDay_lt_iff hvalid (Civil.valid_newYear 0), hday, dayOf]
    have := h.1
    have hnewYear : julianDay ⟨0, 1, 1⟩ = 1721060 := rfl
    omega
  have hhigh : ¬ (⟨9999, 12, 31⟩ : Civil).Before (ofJulianDay (dayOf s)) := by
    rw [julianDay_lt_iff (Civil.Valid.mk (by decide) (by decide) (by decide) (by decide)) hvalid,
      hday, dayOf]
    have := h.2
    have hlast : julianDay ⟨9999, 12, 31⟩ = 5373484 := rfl
    omega
  refine ⟨hvalid, ?_, ?_⟩
  · by_contra hneg
    exact hlow (Or.inl (by show (ofJulianDay (dayOf s)).year < 0; omega))
  · show (ofJulianDay (dayOf s)).year < 10000
    by_contra hlarge
    exact hhigh (Or.inl (by show (9999 : Int) < _; omega))

theorem ofJulianDay_eq_iff {j k : Int} : ofJulianDay j = ofJulianDay k ↔ j = k := by
  constructor
  · intro heq
    rw [← (ofJulianDay_valid j).2, heq, (ofJulianDay_valid k).2]
  · exact congrArg ofJulianDay

/-- The texts of two instants compare as the instants do. -/
theorem sorts_instant {n m : Nat} {date : Civil → List UInt8} {clock : Int → List UInt8}
    (sep : List UInt8) (hsep : ¬ sep < sep)
    (hdate : Sorts InFourDigits (fun c c' => julianDay c < julianDay c') (· = ·) n date)
    (hclock : Sorts InDay (· < ·) (· = ·) m clock) :
    Sorts InYears (· < ·) (· = ·) (n + sep.length + m)
      fun s => date (ofJulianDay (dayOf s)) ++ sep ++ clock (s % 86400) := by
  have hday := hdate.comap (fun s => ofJulianDay (dayOf s)) fun s => inFourDigits_of_inYears
  have hsecond := hclock.comap (fun s : Int => s % 86400) fun s (_ : InYears s) =>
    (show InDay (s % 86400) by constructor <;> omega)
  refine ((hday.append (Sorts.const sep hsep)).append hsecond).congr ?_ ?_
  · intro s t _ _
    simp only [and_true, and_false, or_false]
    rw [(ofJulianDay_valid (dayOf s)).2, (ofJulianDay_valid (dayOf t)).2, ofJulianDay_eq_iff,
      dayOf, dayOf]
    omega
  · intro s t _ _
    simp only [and_true]
    rw [ofJulianDay_eq_iff, dayOf, dayOf]
    omega

end Zing.Base
