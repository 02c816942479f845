import Zing.Base.Printf
import Zing.Lib.Significant

set_option autoImplicit false

/-! # `formatSI` and `formatIEC`

A quantity with three or four digits and a unit. Both functions are a chain of comparisons, of
which each has a format of its own; the bounds of the comparisons have to be those at which the
text would get a digit more.

A `double` has 53 significant bits, which `n` is rounded to, so it may be another number than
`s`. The quotients and the bounds are exact, those of `ℚ`, and `%.2f` rounds to a nearest
multiple. What is said of a text is said of the bytes of it: they are read back as a number with
decimals and a unit.

The bounds are right: every text would be short and near enough if `n` were `s`. It still is
where the conversion crosses no middle between two numbers that may be printed (`Stays`), and
only there: `99949999999999999` becomes the middle between `99.9P` and `100.0P`.
-/

namespace Zing.Base.Units

open Lib Detail

/-! ## The functions -/

/-- `%.pf` -/
def fixed (R : Rounding) (p : Nat) (x : ℚ) : List UInt8 :=
  let digits := (R.round (x * 10 ^ p)).natAbs
  (if x < 0 then text "-" else []) ++ decimal ((digits / 10 ^ p : Nat) : Int) ++
    if p = 0 then [] else text "." ++ padZero p ((digits % 10 ^ p : Nat) : Int)

/-- What stands in `buf` after an `snprintf`. -/
def inBuf (chars : List UInt8) : List UInt8 := chars.take (64 - 1)

/-- `"%.pf"` with a suffix, for the quotient by a unit. -/
structure Format where
  p : Nat
  unit : ℚ
  suffix : List UInt8

def Format.print (R : Rounding) (f : Format) (n : ℚ) : List UInt8 :=
  inBuf (fixed R f.p (n / f.unit) ++ f.suffix)

/-- `static_cast<double>(s)` -/
def toDouble (s : Int) : Int := significant roundHalfEven 53 s

/-- The chain of comparisons: each bound with its format, and the format of the last branch.
The number `s` is compared, and `n` is printed. -/
def printFirst (R : Rounding) (rows : List (ℚ × Format)) (last : Format) (s n : ℚ) :
    List UInt8 :=
  match rows with
  | [] => last.print R n
  | (bound, f) :: rows => if s < bound then f.print R n else printFirst R rows last s n

/-- The branches of `formatSI` behind the first one. -/
def siRows : List (ℚ × Format) :=
  [(9995, ⟨2, 10 ^ 3, text "k"⟩), (99950, ⟨1, 10 ^ 3, text "k"⟩),
    (999500, ⟨0, 10 ^ 3, text "k"⟩),
    (9995000, ⟨2, 10 ^ 6, text "M"⟩), (99950000, ⟨1, 10 ^ 6, text "M"⟩),
    (999500000, ⟨0, 10 ^ 6, text "M"⟩),
    (9995000000, ⟨2, 10 ^ 9, text "G"⟩), (99950000000, ⟨1, 10 ^ 9, text "G"⟩),
    (999500000000, ⟨0, 10 ^ 9, text "G"⟩),
    (9995000000000, ⟨2, 10 ^ 12, text "T"⟩), (99950000000000, ⟨1, 10 ^ 12, text "T"⟩),
    (999500000000000, ⟨0, 10 ^ 12, text "T"⟩),
    (9995000000000000, ⟨2, 10 ^ 15, text "P"⟩), (99950000000000000, ⟨1, 10 ^ 15, text "P"⟩),
    (999500000000000000, ⟨0, 10 ^ 15, text "P"⟩)]

def siLast : Format := ⟨2, 10 ^ 18, text "E"⟩

def formatSI (R : Rounding) (s : Int) : List UInt8 :=
  let n : ℚ := toDouble s
  if s < 1000 then inBuf (decimal s) else printFirst R siRows siLast s n

def Ki : ℚ := 1024
def Mi : ℚ := Ki * 1024
def Gi : ℚ := Mi * 1024
def Ti : ℚ := Gi * 1024
def Pi : ℚ := Ti * 1024
def Ei : ℚ := Pi * 1024

/-- The branches of `formatIEC` behind the first one. -/
def iecRows : List (ℚ × Format) :=
  [(Ki * 9.995, ⟨2, Ki, text "Ki"⟩), (Ki * 99.95, ⟨1, Ki, text "Ki"⟩),
    (Ki * 1023.5, ⟨0, Ki, text "Ki"⟩),
    (Mi * 9.995, ⟨2, Mi, text "Mi"⟩), (Mi * 99.95, ⟨1, Mi, text "Mi"⟩),
    (Mi * 1023.5, ⟨0, Mi, text "Mi"⟩),
    (Gi * 9.995, ⟨2, Gi, text "Gi"⟩), (Gi * 99.95, ⟨1, Gi, text "Gi"⟩),
    (Gi * 1023.5, ⟨0, Gi, text "Gi"⟩),
    (Ti * 9.995, ⟨2, Ti, text "Ti"⟩), (Ti * 99.95, ⟨1, Ti, text "Ti"⟩),
    (Ti * 1023.5, ⟨0, Ti, text "Ti"⟩),
    (Pi * 9.995, ⟨2, Pi, text "Pi"⟩), (Pi * 99.95, ⟨1, Pi, text "Pi"⟩),
    (Pi * 1023.5, ⟨0, Pi, text "Pi"⟩),
    (Ei * 9.995, ⟨2, Ei, text "Ei"⟩)]

def iecLast : Format := ⟨1, Ei, text "Ei"⟩

def formatIEC (R : Rounding) (s : Int) : List UInt8 :=
  let n : ℚ := toDouble s
  if n < Ki then inBuf (decimal s) else printFirst R iecRows iecLast n n

/-! ## Reading a text -/

def isDigit (c : UInt8) : Bool := 48 ≤ c.toNat ∧ c.toNat ≤ 57

/-- A text as a number with decimals, and a suffix. -/
structure Quantity where
  whole : List UInt8
  decimals : List UInt8
  suffix : List UInt8

def readQuantity (l : List UInt8) : Quantity :=
  match l.dropWhile isDigit with
  | 46 :: rest => ⟨l.takeWhile isDigit, rest.takeWhile isDigit, rest.dropWhile isDigit⟩
  | rest => ⟨l.takeWhile isDigit, [], rest⟩

namespace Quantity

variable (units : List (List UInt8 × ℚ)) (q : Quantity)

def number : ℚ := valueOf q.whole + valueOf q.decimals / 10 ^ q.decimals.length

/-- The unit for which the suffix stands. -/
def unit : Option ℚ := units.lookup q.suffix

/-- The number times its unit. -/
def value : ℚ := q.number * (q.unit units).getD 0

/-- A unit of the last digit. -/
def lastDigit : ℚ := (q.unit units).getD 0 / 10 ^ q.decimals.length

end Quantity

def siUnits : List (List UInt8 × ℚ) :=
  [([], 1), (text "k", 10 ^ 3), (text "M", 10 ^ 6), (text "G", 10 ^ 9), (text "T", 10 ^ 12),
    (text "P", 10 ^ 15), (text "E", 10 ^ 18)]

def iecUnits : List (List UInt8 × ℚ) :=
  [([], 1), (text "Ki", 1024), (text "Mi", 1024 ^ 2), (text "Gi", 1024 ^ 3),
    (text "Ti", 1024 ^ 4), (text "Pi", 1024 ^ 5), (text "Ei", 1024 ^ 6)]

/-- What the header promises of a function that prints numbers, of at most `size` bytes: a
number below `first` is printed as it is. -/
structure Prints (units : List (List UInt8 × ℚ)) (size : Nat) (first : Int)
    (print : Int → List UInt8) (s : Int) : Prop where
  length_le : (print s).length ≤ size
  known : ((readQuantity (print s)).unit units).isSome
  near : |(readQuantity (print s)).value units - s| ≤ (readQuantity (print s)).lastDigit units / 2
  exact : s < first → print s = decimal s

/-! ## Reading what was printed -/

variable {R : Rounding} {w d suffix : List UInt8} {p q size : Nat} {x n : ℚ}

theorem isDigit_numeral (v : Nat) : ∀ c ∈ numeral 10 v, isDigit c := by
  intro c hc
  exact decide_eq_true (mem_numeral hc)

theorem isDigit_padZero {v : Int} (h : 0 ≤ v) : ∀ c ∈ padZero p v, isDigit c := by
  intro c hc
  rw [padZero_of_nonneg h] at hc
  rcases List.mem_append.mp hc with hc | hc
  · rw [List.eq_of_mem_replicate hc]
    rfl
  · exact isDigit_numeral _ c hc

/-- The bytes of a suffix are no part of a number. -/
def IsSuffix (suffix : List UInt8) : Prop := ∀ c ∈ suffix, isDigit c = false ∧ c ≠ 46

instance (suffix : List UInt8) : Decidable (IsSuffix suffix) :=
  inferInstanceAs (Decidable (∀ c ∈ suffix, _))

theorem takeWhile_digits (hw : ∀ c ∈ w, isDigit c) (hs : ∀ c ∈ suffix.head?, isDigit c = false) :
    (w ++ suffix).takeWhile isDigit = w ∧ (w ++ suffix).dropWhile isDigit = suffix := by
  rw [List.takeWhile_append_of_pos hw, List.dropWhile_append_of_pos hw]
  cases suffix with
  | nil => exact ⟨List.append_nil w, rfl⟩
  | cons c suffix =>
      have hc : isDigit c = false := hs c rfl
      rw [List.takeWhile_cons_of_neg (by simp [hc]), List.dropWhile_cons_of_neg (by simp [hc])]
      exact ⟨List.append_nil w, rfl⟩

theorem IsSuffix.head (hs : IsSuffix suffix) : ∀ c ∈ suffix.head?, isDigit c = false := by
  intro c hc
  exact (hs c (List.mem_of_head? hc)).1

theorem readQuantity_whole (hw : ∀ c ∈ w, isDigit c) (hs : IsSuffix suffix) :
    readQuantity (w ++ suffix) = ⟨w, [], suffix⟩ := by
  obtain ⟨htake, hdrop⟩ := takeWhile_digits hw hs.head
  rw [readQuantity, htake, hdrop]
  split
  · exact absurd rfl (hs 46 List.mem_cons_self).2
  · rfl

theorem readQuantity_decimals (hw : ∀ c ∈ w, isDigit c) (hd : ∀ c ∈ d, isDigit c)
    (hs : IsSuffix suffix) :
    readQuantity (w ++ (text "." ++ (d ++ suffix))) = ⟨w, d, suffix⟩ := by
  have hpoint : ∀ c ∈ (text "." ++ (d ++ suffix)).head?, isDigit c = false := by
    intro c hc
    rw [← Option.some.inj hc]
    rfl
  obtain ⟨htake, hdrop⟩ := takeWhile_digits hw hpoint
  obtain ⟨htake', hdrop'⟩ := takeWhile_digits hd hs.head
  rw [readQuantity, htake, hdrop]
  show (⟨w, (d ++ suffix).takeWhile isDigit, (d ++ suffix).dropWhile isDigit⟩ : Quantity) = _
  rw [htake', hdrop']

/-- The digits behind the point. -/
def decimals (p q : Nat) : List UInt8 :=
  if p = 0 then [] else padZero p ((q % 10 ^ p : Nat) : Int)

theorem length_decimals (p q : Nat) : (decimals p q).length = p := by
  rw [decimals]
  split
  · case isTrue h => exact h.symm
  · case isFalse h =>
      apply length_padZero (Nat.pos_of_ne_zero h) (Int.natCast_nonneg _)
      exact_mod_cast Nat.mod_lt q (Nat.pow_pos (by decide))

theorem fixed_eq (hx : 0 ≤ x) (hq : (q : ℤ) = R.round (x * 10 ^ p)) :
    fixed R p x = numeral 10 (q / 10 ^ p) ++
      if p = 0 then [] else text "." ++ decimals p q := by
  rw [fixed, ← hq, Int.natAbs_natCast, if_neg (not_lt.mpr hx), List.nil_append,
    decimal_of_nonneg (Int.natCast_nonneg _), Int.natAbs_natCast]
  split
  · rfl
  · case isFalse h => rw [decimals, if_neg h]

theorem readQuantity_fixed (hx : 0 ≤ x) (hq : (q : ℤ) = R.round (x * 10 ^ p))
    (hs : IsSuffix suffix) :
    readQuantity (fixed R p x ++ suffix) = ⟨numeral 10 (q / 10 ^ p), decimals p q, suffix⟩ := by
  rw [fixed_eq hx hq]
  by_cases hp : p = 0
  · rw [if_pos hp, List.append_nil, readQuantity_whole (isDigit_numeral _) hs, decimals, if_pos hp]
  · have hdigits : ∀ c ∈ decimals p q, isDigit c := by
      rw [decimals, if_neg hp]
      exact isDigit_padZero (Int.natCast_nonneg _)
    rw [if_neg hp, List.append_assoc, List.append_assoc,
      readQuantity_decimals (isDigit_numeral _) hdigits hs]

/-- The number that was printed is the multiple that it was rounded to. -/
theorem number_fixed :
    Quantity.number ⟨numeral 10 (q / 10 ^ p), decimals p q, suffix⟩ = (q : ℚ) / 10 ^ p := by
  have hdec : valueOf (decimals p q) = q % 10 ^ p := by
    rw [decimals]
    split
    · case isTrue h =>
        rw [h, Nat.pow_zero, Nat.mod_one]
        rfl
    · rw [valueOf_padZero (Int.natCast_nonneg _), Int.natAbs_natCast]
  have hsplit : ((10 ^ p * (q / 10 ^ p) + q % 10 ^ p : Nat) : ℚ) = q := by
    rw [Nat.div_add_mod]
  have hpow : (10 ^ p : ℚ) ≠ 0 := by positivity
  rw [Quantity.number, valueOf_numeral, length_decimals, hdec, eq_div_iff hpow, add_mul,
    div_mul_cancel₀ _ hpow, ← hsplit]
  push_cast
  ring

theorem length_fixed (hx : 0 ≤ x) (hq : (q : ℤ) = R.round (x * 10 ^ p)) {k : Nat} (hk : 0 < k)
    (hlt : q < 10 ^ (k + p)) :
    (fixed R p x).length ≤ k + if p = 0 then 0 else p + 1 := by
  have hwhole : (numeral 10 (q / 10 ^ p)).length ≤ k := by
    rw [numeral_length_le (by decide) hk]
    apply Nat.div_lt_of_lt_mul
    rw [← Nat.pow_add, Nat.add_comm p k]
    exact hlt
  rw [fixed_eq hx hq, List.length_append]
  split
  · exact hwhole
  · have hpoint : (text ".").length = 1 := rfl
    rw [List.length_append, length_decimals, hpoint]
    omega

/-! ## One branch -/

variable {units : List (List UInt8 × ℚ)} {f last : Format} {bound : ℚ} {row : ℚ × Format}
  {rows : List (ℚ × Format)}

/-- The value of the last digit that is printed. -/
def Format.step (f : Format) : ℚ := f.unit / 10 ^ f.p

/-- The numbers of a branch. -/
def range (row : ℚ × Format) : Range := ⟨row.1, row.2.step⟩

/-- The bytes of the whole part, where `size` bytes are promised. -/
def Format.room (f : Format) (size : Nat) : Nat :=
  size - ((if f.p = 0 then 0 else f.p + 1) + f.suffix.length)

/-- The text of every number below the bound has room, and can be read. -/
def Fits (units : List (List UInt8 × ℚ)) (size : Nat) (row : ℚ × Format) : Prop :=
  0 < row.2.unit ∧ IsSuffix row.2.suffix ∧ units.lookup row.2.suffix = some row.2.unit ∧
    0 < row.2.room size ∧ (range row).top < 10 ^ (row.2.room size + row.2.p)

instance (units : List (List UInt8 × ℚ)) (size : Nat) (row : ℚ × Format) :
    Decidable (Fits units size row) :=
  inferInstanceAs (Decidable (_ ∧ _ ∧ _ ∧ _ ∧ _))

theorem Format.step_pos (h : 0 < f.unit) : 0 < f.step := div_pos h (by positivity)

theorem Format.div_step (f : Format) (n : ℚ) : n / f.unit * 10 ^ f.p = n / f.step := by
  rw [Format.step, div_div_eq_mul_div, div_mul_eq_mul_div]

/-- What a branch prints. There is room for what is rounded to no more than the bound allows. -/
structure Printed (units : List (List UInt8 × ℚ)) (size : Nat) (R : Rounding) (row : ℚ × Format)
    (n : ℚ) (chars : List UInt8) : Prop where
  length_le : R.round (n / row.2.step) ≤ (range row).top → chars.length ≤ size
  unit_eq : (readQuantity chars).unit units = some row.2.unit
  value_eq : (readQuantity chars).value units = (range row).value R n
  lastDigit_eq : (readQuantity chars).lastDigit units = row.2.step

theorem length_text {k : Nat} (hunit : 0 < f.unit) (hn : 0 ≤ n) (hk : 0 < k)
    (hlt : R.round (n / f.step) < 10 ^ (k + f.p)) :
    (fixed R f.p (n / f.unit) ++ f.suffix).length ≤
      k + ((if f.p = 0 then 0 else f.p + 1) + f.suffix.length) := by
  obtain ⟨q, hq⟩ := Int.eq_ofNat_of_zero_le (R.nonneg (div_nonneg hn (Format.step_pos hunit).le))
  have hround : (q : ℤ) = R.round (n / f.unit * 10 ^ f.p) := by
    rw [f.div_step n]
    exact hq.symm
  have hq_lt : q < 10 ^ (k + f.p) := by
    rw [hq] at hlt
    exact_mod_cast hlt
  have hfixed := length_fixed (div_nonneg hn hunit.le) hround hk hq_lt
  rw [List.length_append]
  omega

/-- A text is cut off nowhere, since rounding at the bound gives at most one digit more. -/
theorem Fits.print_eq (h : Fits units size row) (hsize : size < 63) (hn : 0 ≤ n)
    (hle : n ≤ row.1) :
    row.2.print R n = fixed R row.2.p (n / row.2.unit) ++ row.2.suffix := by
  obtain ⟨hunit, -, -, hroom, htop⟩ := h
  have hupper : (range row).upper ≤ (range row).top + 1 := by
    rw [Range.upper, Range.top, sub_add_cancel]
    exact Int.floor_le_ceil _
  have hround : R.round (n / row.2.step) ≤ (range row).upper :=
    Range.round_le_upper (Format.step_pos hunit) hle
  have hlt : R.round (n / row.2.step) < 10 ^ (row.2.room size + 1 + row.2.p) := by
    calc R.round (n / row.2.step) ≤ 10 ^ (row.2.room size + row.2.p) := by omega
      _ < 10 ^ (row.2.room size + 1 + row.2.p) :=
        pow_lt_pow_right₀ (by decide) (by omega)
  have hlen := length_text hunit hn (Nat.succ_pos _) hlt
  rw [Format.room] at hlen hroom
  exact List.take_of_length_le (by omega)

theorem Fits.printed (h : Fits units size row) (hsize : size < 63) (hn : 0 ≤ n)
    (hle : n ≤ row.1) : Printed units size R row n (row.2.print R n) := by
  have htext := h.print_eq (R := R) hsize hn hle
  obtain ⟨hunit, hsuffix, hknown, hroom, htop⟩ := h
  have hstep : 0 < (range row).step := Format.step_pos hunit
  have hx : 0 ≤ n / row.2.unit := div_nonneg hn hunit.le
  obtain ⟨q, hq⟩ := Int.eq_ofNat_of_zero_le (R.nonneg (div_nonneg hn hstep.le))
  have hround : (q : ℤ) = R.round (n / row.2.unit * 10 ^ row.2.p) := by
    rw [row.2.div_step n]
    exact hq.symm
  have hread : readQuantity (fixed R row.2.p (n / row.2.unit) ++ row.2.suffix) = _ :=
    readQuantity_fixed hx hround hsuffix
  have hunit_eq : (readQuantity (row.2.print R n)).unit units = some row.2.unit := by
    rw [htext, hread]
    exact hknown
  refine ⟨?_, hunit_eq, ?_, ?_⟩
  · intro hle_top
    have hlen := length_text hunit hn hroom (lt_of_le_of_lt hle_top htop)
    rw [htext]
    rw [Format.room] at hlen hroom
    omega
  · rw [Quantity.value, hunit_eq, htext, hread, number_fixed, Range.value]
    show (q : ℚ) / 10 ^ row.2.p * row.2.unit = R.round (n / (range row).step) * row.2.step
    rw [hq, Format.step, div_mul_eq_mul_div, mul_div_assoc]
    rfl
  · rw [Quantity.lastDigit, hunit_eq, htext, hread]
    show row.2.unit / 10 ^ (decimals row.2.p q).length = row.2.step
    rw [length_decimals, Format.step]

/-! ## The chain of branches -/

variable {k : ℚ}

/-- The last branch is one without a bound. -/
theorem printFirst_append_last :
    printFirst R (rows ++ [(bound, last)]) last k n = printFirst R rows last k n := by
  induction rows with
  | nil =>
      show (if k < bound then last.print R n else last.print R n) = last.print R n
      exact ite_self _
  | cons row rows ih => rw [List.cons_append, printFirst, printFirst, ih]

/-- The branch that is taken is that of the range of the number that is compared. -/
theorem printFirst_pick (R : Rounding) (last : Format) (n : ℚ) {r : Range}
    (h : Range.pick (rows.map range) k = some r) :
    ∃ row ∈ rows, r = range row ∧ k < row.1 ∧ printFirst R rows last k n = row.2.print R n := by
  induction rows with
  | nil => cases h
  | cons row rows ih =>
      rw [List.map_cons] at h
      by_cases hlt : k < row.1
      · rw [Range.pick_cons_of_lt hlt] at h
        cases h
        refine ⟨row, List.mem_cons_self, rfl, hlt, ?_⟩
        rw [printFirst, if_pos hlt]
      · rw [Range.pick_cons_of_le (not_lt.mp hlt)] at h
        obtain ⟨row', hmem, hr, hlt', hprint⟩ := ih h
        refine ⟨row', List.mem_cons_of_mem _ hmem, hr, hlt', ?_⟩
        rw [printFirst, if_neg hlt, hprint]

/-- There is a range for every number below one of the bounds. -/
theorem exists_pick (hmem : row ∈ rows) (hlt : n < row.1) :
    ∃ r, Range.pick (rows.map range) n = some r := by
  rw [← Option.isSome_iff_exists, Range.pick, List.find?_isSome]
  exact ⟨range row, List.mem_map_of_mem hmem, decide_eq_true hlt⟩

/-- `%lld`, for a number that is not negative. -/
def plain : Format := ⟨0, 1, []⟩

theorem print_plain {s : Int} (hs : 0 ≤ s) : plain.print R s = inBuf (decimal s) := by
  have hround : (s.natAbs : ℤ) = R.round ((s : ℚ) / 1 * 10 ^ 0) := by
    rw [pow_zero, mul_one, div_one, R.intCast, Int.natAbs_of_nonneg hs]
  have hnonneg : 0 ≤ (s : ℚ) / 1 := by
    rw [div_one]
    exact_mod_cast hs
  show inBuf (fixed R 0 ((s : ℚ) / 1) ++ []) = inBuf (decimal s)
  rw [fixed_eq hnonneg hround, if_pos rfl, decimal_of_nonneg hs, Nat.pow_zero, Nat.div_one,
    List.append_nil, List.append_nil]

/-- The branches of a function, up to a bound. -/
structure Branches (units : List (List UInt8 × ℚ)) (size : Nat) (max : ℚ)
    (rows : List (ℚ × Format)) : Prop where
  joins : (rows.map range).IsChain Range.Joins
  fits : ∀ row ∈ rows, Fits units size row
  bounded : ∃ row ∈ rows, max ≤ row.1

/-- `n` is printed where `k` is compared: the two are on the same side of every bound, or `n` is
on it. -/
structure Follows (rows : List (ℚ × Format)) (k n : ℚ) : Prop where
  nonneg : 0 ≤ n
  below : ∀ row ∈ rows, k < row.1 → n ≤ row.1
  above : ∀ row ∈ rows, row.1 ≤ k → row.1 ≤ n

theorem follows_self (hn : 0 ≤ n) : Follows rows n n := ⟨hn, fun _ _ h => h.le, fun _ _ h => h⟩

variable {max : ℚ}

theorem Branches.printed (h : Branches units size max rows) (hsize : size < 63)
    (hn : Follows rows k n) (hmax : k < max) (last : Format) :
    ∃ row ∈ rows, Range.pick (rows.map range) k = some (range row) ∧ k < row.1 ∧
      Printed units size R row n (printFirst R rows last k n) := by
  obtain ⟨row, hmem, hle⟩ := h.bounded
  obtain ⟨r, hr⟩ := exists_pick hmem (lt_of_lt_of_le hmax hle)
  obtain ⟨row', hmem', rfl, hlt, hprint⟩ := printFirst_pick R last n hr
  refine ⟨row', hmem', hr, hlt, ?_⟩
  rw [hprint]
  exact (h.fits row' hmem').printed hsize hn.nonneg (hn.below row' hmem' hlt)

/-- The printed value grows with the number. -/
theorem Branches.value_le {l m : ℚ} (h : Branches units size max rows) (hsize : size < 63)
    (hn : Follows rows k n) (hm : Follows rows l m) (hle : k ≤ l) (hnm : n ≤ m) (hmax : l < max)
    (last : Format) :
    (readQuantity (printFirst R rows last k n)).value units ≤
      (readQuantity (printFirst R rows last l m)).value units := by
  obtain ⟨row, hmem, hpick, -, hrow⟩ :=
    h.printed (R := R) hsize hn (lt_of_le_of_lt hle hmax) last
  obtain ⟨row', hmem', hpick', -, hrow'⟩ := h.printed (R := R) hsize hm hmax last
  have hsteps : ∀ r ∈ rows.map range, 0 < r.step := by
    intro r hr
    obtain ⟨row, hmem, rfl⟩ := List.mem_map.mp hr
    exact Format.step_pos (h.fits row hmem).1
  have hbelow : ∀ r ∈ rows.map range, k < r.bound → n ≤ r.bound := by
    intro r hr
    obtain ⟨row, hmem, rfl⟩ := List.mem_map.mp hr
    exact hn.below row hmem
  have habove : ∀ r ∈ rows.map range, r.bound ≤ l → r.bound ≤ m := by
    intro r hr
    obtain ⟨row, hmem, rfl⟩ := List.mem_map.mp hr
    exact hm.above row hmem
  rw [hrow.value_eq, hrow'.value_eq]
  exact Range.value_mono h.joins hsteps hle hnm hbelow habove hpick hpick'

/-- The value of the last digit in the branch of a number that is compared. -/
def digitStep (rows : List (ℚ × Format)) (k : ℚ) : ℚ :=
  match Range.pick (rows.map range) k with
  | some r => r.step
  | none => 1

/-- The conversion of `s` to a `double` crosses no middle between two numbers that the branch of
`k` may print, and reaches none that is rounded away from `s`. -/
def Stays (R : Rounding) (rows : List (ℚ × Format)) (k : ℚ) (s : Int) : Prop :=
  ¬ R.Crosses (s / digitStep rows k) (toDouble s / digitStep rows k)

theorem Branches.prints_iff {print : Int → List UInt8} {first s : Int} {last : Format}
    (h : Branches units size max rows) (hsize : size < 63) (hk : k = s ∨ k = toDouble s)
    (hn : Follows rows k (toDouble s)) (hmax : k < max)
    (hprint : print s = printFirst R rows last k (toDouble s))
    (hfirst : s < first → print s = decimal s) :
    Prints units size first print s ↔ Stays R rows k s := by
  obtain ⟨row, hmem, hpick, hlt, hrow⟩ := h.printed (R := R) hsize hn hmax last
  have hstep : 0 < (range row).step := Format.step_pos (h.fits row hmem).1
  have hdigit : digitStep rows k = (range row).step := by
    rw [digitStep, hpick]
  rw [Stays, hdigit, ← Range.abs_value_sub_iff hstep]
  rw [← hprint] at hrow
  constructor
  · intro hp
    have hnear := hp.near
    rw [hrow.value_eq, hrow.lastDigit_eq] at hnear
    exact hnear
  · intro hnear
    refine ⟨hrow.length_le (Range.le_top hstep hlt ?_), ?_, ?_, hfirst⟩
    · -- what is printed is near the number that is compared
      rcases hk with hk | hk
      · rw [hk]
        have hround := R.abs_round_sub_iff.mpr ((Range.abs_value_sub_iff hstep _ _).mp hnear)
        exact sub_le_iff_le_add'.mp (abs_le.mp hround).2
      · rw [hk]
        exact R.le_add_half _
    · rw [hrow.unit_eq]
      rfl
    · rw [hrow.value_eq, hrow.lastDigit_eq]
      exact hnear

/-! ## The functions -/

variable {s t : Int}

/-- The branches of `formatSI`; the last one is for all that is left of `int64_t`. -/
def siBranches : List (ℚ × Format) := (1000, plain) :: (siRows ++ [(2 ^ 63, siLast)])

/-- The branches of `formatIEC` that an `int64_t` can get to. -/
def iecBranches : List (ℚ × Format) := (Ki, plain) :: iecRows

theorem siBranches_ok : Branches siUnits 5 (2 ^ 63) siBranches where
  joins := by decide +kernel
  fits := by decide +kernel
  bounded := ⟨(2 ^ 63, siLast), by simp [siBranches], le_refl _⟩

theorem iecBranches_ok : Branches iecUnits 6 (2 ^ 63 + 1) iecBranches where
  joins := by decide +kernel
  fits := by decide +kernel
  bounded := ⟨(Ei * 9.995, ⟨2, Ei, text "Ei"⟩), by simp [iecBranches, iecRows], by decide +kernel⟩

theorem toDouble_of_lt (hs : s.natAbs < 2 ^ 53) : toDouble s = s :=
  significant_of_lt (by decide) hs

theorem toDouble_nonneg (hs : 0 ≤ s) : 0 ≤ toDouble s := significant_nonneg hs

theorem toDouble_mono (hs : 0 ≤ s) (h : s ≤ t) : toDouble s ≤ toDouble t :=
  significant_mono (by decide) hs h

theorem toDouble_lt (hs : 0 ≤ s) (hmax : s < 2 ^ 63) : (toDouble s : ℚ) < 2 ^ 63 + 1 := by
  have hmax' : toDouble (2 ^ 63) = 2 ^ 63 := by decide +kernel
  have hle := toDouble_mono hs hmax.le
  rw [hmax'] at hle
  exact_mod_cast Int.lt_add_one_of_le hle

/-- The bounds of `formatSI` are numbers that a `double` can have. -/
theorem siBranches_exact : ∀ row ∈ siBranches,
    row.1 = row.1.num ∧ 0 ≤ row.1.num ∧ toDouble row.1.num = row.1.num := by
  decide +kernel

theorem si_follows (hs : 0 ≤ s) : Follows siBranches s (toDouble s) where
  nonneg := by exact_mod_cast toDouble_nonneg hs
  below row hmem hlt := by
    obtain ⟨hnum, -, hexact⟩ := siBranches_exact row hmem
    rw [hnum] at hlt ⊢
    have hle := toDouble_mono hs (by exact_mod_cast hlt.le : s ≤ row.1.num)
    rw [hexact] at hle
    exact_mod_cast hle
  above row hmem hle := by
    obtain ⟨hnum, hnonneg, hexact⟩ := siBranches_exact row hmem
    rw [hnum] at hle ⊢
    have hle' := toDouble_mono hnonneg (by exact_mod_cast hle : row.1.num ≤ s)
    rw [hexact] at hle'
    exact_mod_cast hle'

theorem iec_follows (hs : 0 ≤ s) : Follows iecBranches (toDouble s) (toDouble s) :=
  follows_self (by exact_mod_cast toDouble_nonneg hs)

theorem formatSI_eq (hs : 0 ≤ s) :
    formatSI R s = printFirst R siBranches siLast s (toDouble s) := by
  rw [formatSI, siBranches, printFirst, printFirst_append_last]
  by_cases h : s < 1000
  · rw [if_pos h, if_pos (by exact_mod_cast h), toDouble_of_lt (by omega), print_plain hs]
  · rw [if_neg h, if_neg (by exact_mod_cast h)]

/-- Small numbers are those whose `double` is small. -/
theorem lt_Ki_iff (hs : 0 ≤ s) : (toDouble s : ℚ) < Ki ↔ s < 1024 := by
  have hKi : toDouble 1024 = 1024 := toDouble_of_lt (by decide)
  rw [Ki]
  constructor
  · intro h
    by_contra hge
    have hle := toDouble_mono (by decide) (not_lt.mp hge)
    rw [hKi] at hle
    exact absurd h (not_lt.mpr (by exact_mod_cast hle))
  · intro h
    rw [toDouble_of_lt (by omega)]
    exact_mod_cast h

theorem formatIEC_eq (hs : 0 ≤ s) :
    formatIEC R s = printFirst R iecBranches iecLast (toDouble s) (toDouble s) := by
  rw [formatIEC, iecBranches, printFirst]
  by_cases h : (toDouble s : ℚ) < Ki
  · rw [if_pos h, if_pos h, toDouble_of_lt (by have := (lt_Ki_iff hs).mp h; omega),
      print_plain hs]
  · rw [if_neg h, if_neg h]

/-- A number of four digits is not cut off. -/
theorem inBuf_decimal (hs : 0 ≤ s) (hlt : s < 10 ^ 4) : inBuf (decimal s) = decimal s := by
  have hlen := decimal_length_le (v := s) (k := 4) (by decide) (by omega)
  exact List.take_of_length_le (by omega)

theorem formatSI_prints_iff (R : Rounding) (hs : 0 ≤ s) (hmax : s < 2 ^ 63) :
    Prints siUnits 5 1000 (formatSI R) s ↔ Stays R siBranches s s := by
  apply siBranches_ok.prints_iff (by decide) (Or.inl rfl) (si_follows hs)
    (by exact_mod_cast hmax) (formatSI_eq hs)
  intro hlt
  rw [formatSI, if_pos hlt, inBuf_decimal hs (by omega)]

theorem formatIEC_prints_iff (R : Rounding) (hs : 0 ≤ s) (hmax : s < 2 ^ 63) :
    Prints iecUnits 6 1024 (formatIEC R) s ↔ Stays R iecBranches (toDouble s) s := by
  apply iecBranches_ok.prints_iff (by decide) (Or.inr rfl) (iec_follows hs)
    (toDouble_lt hs hmax) (formatIEC_eq hs)
  intro hlt
  rw [formatIEC, if_pos ((lt_Ki_iff hs).mpr hlt), inBuf_decimal hs (by omega)]

/-- Neither function prints less for more. -/
theorem format_mono (R : Rounding) (hs : 0 ≤ s) (hle : s ≤ t) (ht : t < 2 ^ 63) :
    (readQuantity (formatSI R s)).value siUnits ≤ (readQuantity (formatSI R t)).value siUnits ∧
      (readQuantity (formatIEC R s)).value iecUnits ≤
        (readQuantity (formatIEC R t)).value iecUnits := by
  have hle' : (s : ℚ) ≤ t := by exact_mod_cast hle
  have hdouble : (toDouble s : ℚ) ≤ toDouble t := by exact_mod_cast toDouble_mono hs hle
  have ht' : (t : ℚ) < 2 ^ 63 := by exact_mod_cast ht
  have ht₀ : 0 ≤ t := hs.trans hle
  rw [formatSI_eq hs, formatSI_eq ht₀, formatIEC_eq hs, formatIEC_eq ht₀]
  exact ⟨siBranches_ok.value_le (by decide) (si_follows hs) (si_follows ht₀) hle' hdouble ht' _,
    iecBranches_ok.value_le (by decide) (iec_follows hs) (iec_follows ht₀) hdouble hdouble
      (toDouble_lt ht₀ ht) _⟩

/-- A number keeps what the header promises of the two functions, and what is printed for it is
no more than for a larger one, exactly if its conversion to a `double` stays on its side of the
middles between the numbers that may be printed. -/
theorem format_accurate_iff (R : Rounding) (s : Int) (hs : 0 ≤ s) (hmax : s < 2 ^ 63) :
    (Prints siUnits 5 1000 (formatSI R) s ∧ Prints iecUnits 6 1024 (formatIEC R) s ∧
      ∀ t : Int, s ≤ t → t < 2 ^ 63 →
        (readQuantity (formatSI R s)).value siUnits ≤
            (readQuantity (formatSI R t)).value siUnits ∧
          (readQuantity (formatIEC R s)).value iecUnits ≤
            (readQuantity (formatIEC R t)).value iecUnits) ↔
      Stays R siBranches s s ∧ Stays R iecBranches (toDouble s) s := by
  rw [formatSI_prints_iff R hs hmax, formatIEC_prints_iff R hs hmax]
  constructor
  · rintro ⟨hsi, hiec, -⟩
    exact ⟨hsi, hiec⟩
  · rintro ⟨hsi, hiec⟩
    exact ⟨hsi, hiec, fun t hle ht => format_mono R hs hle ht⟩

/-- The first number that a `double` cannot have. -/
theorem format_accurate_sample :
    Prints siUnits 5 1000 (formatSI roundHalfEven) 9007199254740993 ∧
      Prints iecUnits 6 1024 (formatIEC roundHalfEven) 9007199254740993 := by
  have hstays := (format_accurate_iff roundHalfEven 9007199254740993 (by decide) (by decide)).mpr
    ⟨(Rounding.abs_round_sub_iff _).mp (by decide +kernel),
      (Rounding.abs_round_sub_iff _).mp (by decide +kernel)⟩
  exact ⟨hstays.1, hstays.2.1⟩

/-- A number below the bound of its branch becomes the bound, and gets a digit more. -/
theorem formatSI_inaccurate :
    formatSI roundHalfEven 99949999999999999 = text "100.0P" ∧
      ¬ Prints siUnits 5 1000 (formatSI roundHalfEven) 99949999999999999 := by
  have htext : formatSI roundHalfEven 99949999999999999 = text "100.0P" := by decide +kernel
  refine ⟨htext, ?_⟩
  intro h
  have hlength := h.length_le
  rw [htext] at hlength
  exact absurd hlength (by decide)

end Zing.Base.Units
