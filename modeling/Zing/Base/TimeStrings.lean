import Zing.Base.SortedText

set_option autoImplicit false

/-! # Dates and time stamps as strings

`Date::toIsoString`, `Timestamp::toString` and `Timestamp::toFormattedString`. Each prints into a
buffer of its own, which is large enough, and returns the string in it. The strings of dates and
the formatted ones sort as the dates and time stamps do. A time stamp before 1970 has negative
microseconds, and its formatted string does not sort.
-/

namespace Zing.Base

open Lib Detail

/-- `snprintf(buf, sizeof buf, ...)` and `return buf` -/
def printed {n : Nat} (buf : Memory UInt8 n) (chars : List UInt8) :
    Except OutOfBounds (List UInt8) := do
  let (buf, _) ← snprintf buf 0 n chars
  return buf.cells.takeWhile (· ≠ 0)

/-- An overflow, or an access outside of the buffer. -/
inductive DateFault
  | undefined (e : Undefined)
  | buffer (e : OutOfBounds)
  deriving DecidableEq, Repr

/-- `buf` is what stands in the buffer before. -/
def Date.toIsoString (date : Date) (buf : Memory UInt8 32) : Except DateFault (List UInt8) := do
  let ymd ← nested .undefined date.yearMonthDay
  nested .buffer (printed buf
    (padSpace 4 ymd.year ++ text "-" ++ padZero 2 ymd.month ++ text "-" ++ padZero 2 ymd.day))

namespace Timestamp

/-- A buffer of zeros. -/
def zeros (n : Nat) : Memory UInt8 n := ⟨List.replicate n 0, List.length_replicate⟩

def toString (microSecondsSinceEpoch : Int) : Except OutOfBounds (List UInt8) :=
  let seconds := microSecondsSinceEpoch.tdiv kMicroSecondsPerSecond
  let microseconds := microSecondsSinceEpoch.tmod kMicroSecondsPerSecond
  printed (zeros 32) (decimal seconds ++ text "." ++ padZero 6 microseconds)

def toFormattedString (microSecondsSinceEpoch : Int) (showMicroseconds : Bool) :
    Except OutOfBounds (List UInt8) :=
  let seconds := microSecondsSinceEpoch.tdiv kMicroSecondsPerSecond
  let tm_time := calendarTime seconds
  if showMicroseconds then
    let microseconds := microSecondsSinceEpoch.tmod kMicroSecondsPerSecond
    printed (zeros 64) (timeText tm_time ++ text "." ++ padZero 6 microseconds)
  else printed (zeros 64) (timeText tm_time)

end Timestamp

/-! ## Printing into a buffer -/

theorem printed_eq {n : Nat} (buf : Memory UInt8 n) {chars : List UInt8}
    (hchars : Printable chars) (hlen : chars.length < n) : printed buf chars = .ok chars := by
  have htake : chars.take (n - 1) = chars := List.take_of_length_le (by omega)
  obtain ⟨m, hm⟩ := buf.exists_write 0 (chars ++ [0])
    (by rw [List.length_append, List.length_singleton]; omega)
  have hcells := Memory.take_write hm
  rw [List.take_zero, List.nil_append] at hcells
  have hsplit : m.cells = chars ++ 0 :: m.cells.drop (0 + (chars ++ [0]).length) := by
    conv_lhs => rw [← List.take_append_drop (0 + (chars ++ [0]).length) m.cells, hcells]
    rw [List.append_assoc]
    rfl
  have hnonzero : ∀ c ∈ chars, decide (c ≠ 0) = true := by
    intro c hc
    rw [decide_eq_true_iff]
    rintro rfl
    exact hchars.not_mem (by decide) hc
  rw [printed, snprintf, htake, hm]
  simp only [ok_bind, pure_eq_ok]
  rw [hsplit, List.takeWhile_append_of_pos hnonzero]
  simp

/-! ## Strings of dates -/

theorem civilText_iso (c : Civil) : civilText (text "-") c =
    padSpace 4 c.year ++ text "-" ++ padZero 2 c.month ++ text "-" ++ padZero 2 c.day := rfl

theorem printable_civilText (sep : List UInt8) (hsep : Printable sep) (c : Civil) :
    Printable (civilText sep c) :=
  ((((printable_padSpace _ _).append hsep).append (printable_padZero _ _)).append hsep).append
    (printable_padZero _ _)

/-- The julian day numbers of the years 0 to 9999. -/
def InDates (j : Int) : Prop := 1721060 ≤ j ∧ j < 5373485

theorem inFourDigits_of_inDates {j : Int} (h : InDates j) : InFourDigits (ofJulianDay j) := by
  have hyears : InYears ((j - 2440588) * 86400) := by
    have := h.1
    have := h.2
    constructor
    · omega
    · omega
  have hday : dayOf ((j - 2440588) * 86400) = j := by
    rw [dayOf]
    omega
  rw [← hday]
  exact inFourDigits_of_inYears hyears

theorem toIsoString_eq {j : Int} (h : InDates j) (buf : Memory UInt8 32) :
    Date.toIsoString ⟨j⟩ buf = .ok (civilText (text "-") (ofJulianDay j)) := by
  have hrange : InRange j := ⟨by have := h.1; omega, by have := h.2; omega⟩
  have hymd : Date.yearMonthDay ⟨j⟩ = .ok (ofJulianDay j) := getYearMonthDay_eq hrange
  have hlen := (sorts_civilText (text "-") (by decide)).length _
    (inFourDigits_of_inDates h)
  have hprinted := printed_eq buf (printable_civilText (text "-") (by decide)
    (ofJulianDay j)) (by rw [hlen]; decide)
  rw [civilText_iso] at hprinted
  rw [Date.toIsoString, hymd, nested_ok, ok_bind, hprinted]
  rfl

/-- Dates of the years 0 to 9999 are printed with ten characters, whatever stands in the buffer
before, and their strings sort as the dates do. -/
theorem isoString_sorts (d e : Date) (hd : InDates d.julianDayNumber)
    (he : InDates e.julianDayNumber) (buf buf' : Memory UInt8 32) :
    ∃ x y, d.toIsoString buf = .ok x ∧ e.toIsoString buf' = .ok y ∧ x.length = 10 ∧
      (x < y ↔ d.julianDayNumber < e.julianDayNumber) ∧ (x = y ↔ d = e) := by
  obtain ⟨j⟩ := d
  obtain ⟨k⟩ := e
  have hj := inFourDigits_of_inDates hd
  have hk := inFourDigits_of_inDates he
  have hsorts := sorts_civilText (text "-") (by decide)
  refine ⟨_, _, toIsoString_eq hd buf, toIsoString_eq he buf', hsorts.length _ hj, ?_, ?_⟩
  · rw [hsorts.lt_iff _ _ hj hk, (ofJulianDay_valid j).2, (ofJulianDay_valid k).2]
  · rw [hsorts.eq_iff _ _ hj hk, ofJulianDay_eq_iff, Date.mk.injEq]

/-- The last day of year 999 and the first of year 1000. -/
theorem isoString_sorts_sample : ∃ x y, Date.toIsoString ⟨2086302⟩ (Timestamp.zeros 32) = .ok x ∧
    Date.toIsoString ⟨2086303⟩ (Timestamp.zeros 32) = .ok y ∧ x < y := by
  obtain ⟨x, y, hx, hy, -, hlt, -⟩ := isoString_sorts ⟨2086302⟩ ⟨2086303⟩
    (by constructor <;> decide) (by constructor <;> decide) (Timestamp.zeros 32)
    (Timestamp.zeros 32)
  exact ⟨x, y, hx, hy, hlt.mpr (by decide)⟩

/-! ## Strings of time stamps -/

namespace Timestamp

/-- The time stamps from 1970 to 9999. -/
def InStamps (t : Int) : Prop := 0 ≤ t ∧ t < 253402300800 * kMicroSecondsPerSecond

theorem kMicroSecondsPerSecond_eq : kMicroSecondsPerSecond = 1000000 := rfl

/-- The rendering of a second. -/
def secondText (s : Int) : List UInt8 := timeText (calendarTime s)

theorem secondText_eq (s : Int) : secondText s =
    civilText [] (ofJulianDay (dayOf s)) ++ text " " ++ clockText (text ":") (s % 86400) := by
  simp [secondText, timeText, civilText, clockText, calendarTime, reading]

theorem sorts_secondText : Sorts InYears (· < ·) (· = ·) 17 secondText :=
  (sorts_instant (text " ") (by decide) (sorts_civilText [] (by decide))
    (sorts_clockText (text ":") (by decide))).congr_text fun s _ => secondText_eq s

/-- With the microseconds behind. -/
def stampText (t : Int) : List UInt8 :=
  secondText (t / 1000000) ++ text "." ++ padZero 6 (t % 1000000)

theorem inYears_of_inStamps {t : Int} (h : InStamps t) : InYears (t / 1000000) := by
  have := h.1
  have := h.2
  rw [kMicroSecondsPerSecond_eq] at this
  constructor
  · omega
  · omega

theorem sorts_stampText : Sorts InStamps (· < ·) (· = ·) 24 stampText := by
  have hsecond := sorts_secondText.comap (fun t : Int => t / 1000000) fun t => inYears_of_inStamps
  have hmicro := (sorts_padZero 5).comap (fun t : Int => t % 1000000) fun t (_ : InStamps t) =>
    (show HasWidth 6 (t % 1000000) from ⟨by omega, by show t % 1000000 < 1000000; omega⟩)
  refine ((hsecond.append (Sorts.const (text ".") (by decide))).append hmicro).congr ?_ ?_
  · intro t u _ _
    simp only [and_true, and_false, or_false]
    omega
  · intro t u _ _
    simp only [and_true]
    omega

theorem toFormattedString_eq {t : Int} (h : InStamps t) :
    toFormattedString t true = .ok (stampText t) ∧
      toFormattedString t false = .ok (secondText (t / 1000000)) := by
  have hsecond : t.tdiv kMicroSecondsPerSecond = t / 1000000 := Int.tdiv_eq_ediv_of_nonneg h.1
  have hmicro : t.tmod kMicroSecondsPerSecond = t % 1000000 := Int.tmod_eq_emod_of_nonneg h.1
  have hyears := inYears_of_inStamps h
  have hprint : Printable (secondText (t / 1000000)) := printable_timeText _
  have hdot : Printable (text ".") := by decide
  constructor
  · have hlen := sorts_stampText.length t h
    have hall : Printable (stampText t) := (hprint.append hdot).append (printable_padZero _ _)
    have hprinted := printed_eq (zeros 64) hall (by omega)
    simp only [toFormattedString, hsecond, hmicro, if_true]
    exact hprinted
  · have hlen := sorts_secondText.length _ hyears
    have hprinted := printed_eq (zeros 64) hprint (by omega)
    simp only [toFormattedString, hsecond, Bool.false_eq_true, if_false]
    exact hprinted

/-- The formatted strings of time stamps from 1970 to 9999 have 24 characters, 17 without the
microseconds, and sort as the time stamps do, without the microseconds as their seconds do. -/
theorem formatted_sorts (t u : Int) (ht : InStamps t) (hu : InStamps u) :
    (∃ x y, toFormattedString t true = .ok x ∧ toFormattedString u true = .ok y ∧
      x.length = 24 ∧ (x < y ↔ t < u) ∧ (x = y ↔ t = u)) ∧
    ∃ x y, toFormattedString t false = .ok x ∧ toFormattedString u false = .ok y ∧
      x.length = 17 ∧ (x < y ↔ t / 1000000 < u / 1000000) ∧
        (x = y ↔ t / 1000000 = u / 1000000) := by
  have ht' := inYears_of_inStamps ht
  have hu' := inYears_of_inStamps hu
  obtain ⟨hlong, hshort⟩ := toFormattedString_eq ht
  obtain ⟨hlong', hshort'⟩ := toFormattedString_eq hu
  constructor
  · exact ⟨_, _, hlong, hlong', sorts_stampText.length t ht, sorts_stampText.lt_iff t u ht hu,
      sorts_stampText.eq_iff t u ht hu⟩
  · exact ⟨_, _, hshort, hshort', sorts_secondText.length _ ht',
      sorts_secondText.lt_iff _ _ ht' hu', sorts_secondText.eq_iff _ _ ht' hu'⟩

/-- The last microsecond of a year and the first of the next. -/
theorem formatted_sorts_sample : ∃ x y,
    toFormattedString 1640995199999999 true = .ok x ∧
      toFormattedString 1640995200000000 true = .ok y ∧ x < y := by
  obtain ⟨⟨x, y, hx, hy, -, hlt, -⟩, -⟩ := formatted_sorts 1640995199999999 1640995200000000
    (by constructor <;> decide) (by constructor <;> decide)
  exact ⟨x, y, hx, hy, hlt.mpr (by decide)⟩

/-! ## The plain string -/

theorem padZero_of_neg {w : Nat} {v : Int} (h : v < 0) :
    padZero w v = text "-" ++ padZero (w - 1) v.natAbs := by
  have hlen : (decimal v).length = (numeral 10 v.natAbs).length + 1 := by
    rw [decimal, if_pos h, List.length_append, Nat.add_comm]
    rfl
  rw [padZero_of_nonneg (Int.natCast_nonneg _), padZero, if_pos h, hlen, Int.natAbs_natCast,
    Nat.sub_right_comm, Nat.sub_sub]

theorem padZero_ne_sign {w : Nat} {v : Int} (h : 0 ≤ v) (l : List UInt8) :
    padZero w v ≠ text "-" ++ l := by
  intro heq
  have hmem : (45 : UInt8) ∈ padZero w v := by
    rw [heq]
    exact List.mem_cons_self
  rw [padZero_of_nonneg h, List.mem_append] at hmem
  rcases hmem with hmem | hmem
  · exact absurd (List.eq_of_mem_replicate hmem) (by decide)
  · exact absurd (mem_numeral hmem).1 (by decide)

/-- The sign shows, so that the text says the number. -/
theorem padZero_eq_iff {w : Nat} {u v : Int} : padZero w u = padZero w v ↔ u = v := by
  refine ⟨fun heq => ?_, congrArg _⟩
  by_cases hu : u < 0
  · by_cases hv : v < 0
    · rw [padZero_of_neg hu, padZero_of_neg hv] at heq
      have habs := padZero_injective (Int.natCast_nonneg _) (Int.natCast_nonneg _)
        (List.append_cancel_left heq)
      omega
    · rw [padZero_of_neg hu] at heq
      exact absurd heq.symm (padZero_ne_sign (by omega) _)
  · by_cases hv : v < 0
    · rw [padZero_of_neg hv] at heq
      exact absurd heq (padZero_ne_sign (by omega) _)
    · exact padZero_injective (by omega) (by omega) heq

/-- Six digits, and a sign at most. -/
theorem length_padZero_le {w k : Nat} {v : Int} (hk : 0 < k) (h : v.natAbs < 10 ^ k) :
    (padZero w v).length ≤ max w (k + 1) := by
  have hle := decimal_length_le hk h
  have hdecimal : (decimal v).length =
      (if v < 0 then text "-" else []).length + (numeral 10 v.natAbs).length := by
    rw [decimal, List.length_append]
  rw [padZero, List.length_append, List.length_append, List.length_replicate]
  omega

/-- The seconds, a point and the microseconds, as they are printed where there is room. -/
def plainText (t : Int) : List UInt8 :=
  decimal (t.tdiv 1000000) ++ text "." ++ padZero 6 (t.tmod 1000000)

theorem natAbs_tmod_lt (t : Int) : (t.tmod 1000000).natAbs < 10 ^ 6 := by
  rw [Int.natAbs_tmod]
  exact Nat.mod_lt _ (by decide)

theorem toString_eq {t : Int} (h : Fits 64 t) : toString t = .ok (plainText t) := by
  have hdot : Printable (text ".") := by decide
  have hprint : Printable (plainText t) :=
    ((printable_decimal _).append hdot).append (printable_padZero _ _)
  have hseconds : (t.tdiv 1000000).natAbs < 10 ^ 13 := by
    have hlow := h.1
    have hhigh := h.2
    rw [Int.natAbs_tdiv]
    apply Nat.div_lt_of_lt_mul
    norm_num at hlow hhigh ⊢
    omega
  have hdecimal := decimal_length_le (by decide) hseconds
  have hmicro := length_padZero_le (w := 6) (by decide) (natAbs_tmod_lt t)
  have hlen : (plainText t).length < 32 := by
    have hpoint : (text ".").length = 1 := rfl
    rw [plainText, List.length_append, List.length_append, hpoint]
    omega
  exact printed_eq (zeros 32) hprint hlen

theorem point_notMem_decimal (v : Int) : (46 : UInt8) ∉ decimal v := by
  intro hmem
  rcases mem_decimal hmem with h | h
  · exact absurd h (by decide)
  · exact absurd h.1 (by decide)

/-- What stands before the first point and what stands behind it. -/
theorem append_point_inj {xs ys zs ws : List UInt8} (hx : (46 : UInt8) ∉ xs)
    (hy : (46 : UInt8) ∉ ys) (h : xs ++ 46 :: zs = ys ++ 46 :: ws) : xs = ys ∧ zs = ws := by
  induction xs generalizing ys with
  | nil =>
      cases ys with
      | nil => exact ⟨rfl, (List.cons.inj h).2⟩
      | cons b ys => exact absurd ((List.cons.inj h).1 ▸ List.mem_cons_self) hy
  | cons a xs ih =>
      cases ys with
      | nil => exact absurd ((List.cons.inj h).1 ▸ List.mem_cons_self) hx
      | cons b ys =>
          obtain ⟨rfl, htail⟩ := List.cons.inj h
          obtain ⟨rfl, hrest⟩ := ih (fun hm => hx (List.mem_cons_of_mem _ hm))
            (fun hm => hy (List.mem_cons_of_mem _ hm)) htail
          exact ⟨rfl, hrest⟩

/-- Every time stamp has its own plain string, those before 1970 included, and none is cut
off: each is the whole text. -/
theorem toString_injective (t u : Int) (ht : Fits 64 t) (hu : Fits 64 u) :
    ∃ x y, toString t = .ok x ∧ toString u = .ok y ∧ x = plainText t ∧ y = plainText u ∧
      (x = y ↔ t = u) := by
  refine ⟨_, _, toString_eq ht, toString_eq hu, rfl, rfl, ?_, congrArg _⟩
  intro heq
  rw [plainText, plainText, List.append_assoc, List.append_assoc] at heq
  obtain ⟨hsecond, hmicro⟩ := append_point_inj (point_notMem_decimal _) (point_notMem_decimal _) heq
  have hdiv := decimal_injective hsecond
  have hmod := padZero_eq_iff.mp hmicro
  rw [← Int.mul_tdiv_add_tmod t 1000000, hdiv, hmod, Int.mul_tdiv_add_tmod]

/-- A microsecond before and after 1970. -/
theorem toString_injective_sample : ∃ x y, toString (-1) = .ok x ∧ toString 1 = .ok y ∧
    x = plainText (-1) ∧ y = plainText 1 ∧ x ≠ y := by
  obtain ⟨x, y, hx, hy, hwhole, hwhole', hinj⟩ := toString_injective (-1) 1 (by decide) (by decide)
  exact ⟨x, y, hx, hy, hwhole, hwhole', fun heq => absurd (hinj.mp heq) (by decide)⟩

end Timestamp

end Zing.Base
