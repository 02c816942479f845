import Mathlib.Algebra.Order.Floor.Ring
import Mathlib.Data.List.Chain
import Mathlib.Data.Rat.Floor
import Mathlib.Tactic.Linarith

set_option autoImplicit false

/-! # Rounding with a step that grows

A `Rounding` rounds to a nearest integer, in any way that it likes where there are two. A
`Range` is a part of the numbers, up to a bound, in which they are rounded to multiples of one
step. Several ranges in a row have larger steps for larger numbers.

Rounding in one range is monotone. It is monotone over all of them if each range joins the next
one: the largest multiple that a number up to the bound can be rounded to is not above the
smallest one behind it (`value_mono`).

A number may have been replaced by another one before it is rounded. The result is still a
nearest one to the number itself if and only if no middle between two integers was crossed
(`abs_round_sub_iff`).
-/

namespace Zing.Lib

/-- Rounding to a nearest integer. -/
structure Rounding where
  round : ℚ → ℤ
  nearest : ∀ x, |(round x : ℚ) - x| ≤ 1 / 2

namespace Rounding

variable (R : Rounding) {x y : ℚ}

theorem le_add_half (x : ℚ) : (R.round x : ℚ) ≤ x + 1 / 2 := by
  have := (abs_le.mp (R.nearest x)).2
  linarith

theorem sub_half_le (x : ℚ) : x - 1 / 2 ≤ (R.round x : ℚ) := by
  have := (abs_le.mp (R.nearest x)).1
  linarith

theorem mono (h : x ≤ y) : R.round x ≤ R.round y := by
  rcases h.eq_or_lt with rfl | hlt
  · exact le_refl _
  · by_contra hgt
    have hsucc : R.round y + 1 ≤ R.round x := by omega
    have hcast : (R.round y : ℚ) + 1 ≤ R.round x := by exact_mod_cast hsucc
    have hx := R.le_add_half x
    have hy := R.sub_half_le y
    linarith

theorem intCast (z : ℤ) : R.round z = z := by
  have hle := R.le_add_half z
  have hge := R.sub_half_le z
  have hlt : (R.round z : ℚ) < z + 1 := by linarith
  have hgt : (z : ℚ) < R.round z + 1 := by linarith
  have hlt' : R.round z < z + 1 := by exact_mod_cast hlt
  have hgt' : z < R.round z + 1 := by exact_mod_cast hgt
  omega

theorem nonneg (h : 0 ≤ x) : 0 ≤ R.round x := by
  have hzero := R.mono h
  rw [← Int.cast_zero, R.intCast] at hzero
  exact hzero

/-- From `x` to `y` a middle between two integers is crossed, or one is reached that is rounded
away from `x`. -/
def Crosses (x y : ℚ) : Prop :=
  ∃ k : ℤ, (x < k + 1 / 2 ∧ (k + 1 / 2 < y ∨ y = k + 1 / 2 ∧ R.round (k + 1 / 2) = k + 1)) ∨
    (k + 1 / 2 < x ∧ (y < k + 1 / 2 ∨ y = k + 1 / 2 ∧ R.round (k + 1 / 2) = k))

/-- What is rounded up from above a middle is far from what is below it. -/
theorem Crosses.far (h : R.Crosses x y) : 1 / 2 < |(R.round y : ℚ) - x| := by
  obtain ⟨k, ⟨hx, hy⟩ | ⟨hx, hy⟩⟩ := h
  · have hround : k + 1 ≤ R.round y := by
      rcases hy with hy | ⟨rfl, hy⟩
      · have hge := R.sub_half_le y
        have hlt : (k : ℚ) < R.round y := by linarith
        exact_mod_cast hlt
      · exact hy.ge
    have hcast : (k : ℚ) + 1 ≤ R.round y := by exact_mod_cast hround
    exact lt_of_lt_of_le (by linarith) (le_abs_self _)
  · have hround : R.round y ≤ k := by
      rcases hy with hy | ⟨rfl, hy⟩
      · have hle := R.le_add_half y
        have hlt : (R.round y : ℚ) < k + 1 := by linarith
        have hlt' : R.round y < k + 1 := by exact_mod_cast hlt
        omega
      · exact hy.le
    have hcast : (R.round y : ℚ) ≤ k := by exact_mod_cast hround
    exact lt_of_lt_of_le (by linarith) (neg_le_abs _)

theorem abs_round_sub_iff : |(R.round y : ℚ) - x| ≤ 1 / 2 ↔ ¬ R.Crosses x y := by
  constructor
  · intro hnear hcross
    exact absurd hcross.far (not_lt.mpr hnear)
  · intro hcross
    by_contra hfar
    apply hcross
    rcases lt_abs.mp (not_le.mp hfar) with h | h
    · -- the middle below the result
      refine ⟨R.round y - 1, Or.inl ⟨?_, ?_⟩⟩
      · push_cast
        linarith
      · have hle := R.le_add_half y
        rcases (show ((R.round y - 1 : ℤ) : ℚ) + 1 / 2 ≤ y by push_cast; linarith).lt_or_eq
          with hy | hy
        · exact Or.inl hy
        · refine Or.inr ⟨hy.symm, ?_⟩
          rw [hy]
          exact (sub_add_cancel _ _).symm
    · refine ⟨R.round y, Or.inr ⟨by linarith, ?_⟩⟩
      have hge := R.sub_half_le y
      rcases (show y ≤ (R.round y : ℚ) + 1 / 2 by linarith).lt_or_eq with hy | hy
      · exact Or.inl hy
      · refine Or.inr ⟨hy, ?_⟩
        rw [← hy]

end Rounding

/-- Ties go to the even number. -/
def roundHalfEven : Rounding where
  round x := if Int.fract x = 1 / 2 ∧ Even ⌊x⌋ then ⌊x⌋ else round x
  nearest x := by
    split
    · rename_i htie
      have hfract : (⌊x⌋ : ℚ) - x = -(1 / 2) := by
        rw [← htie.1, Int.fract]
        ring
      rw [hfract, abs_neg, abs_of_pos (by norm_num)]
    · rw [abs_sub_comm]
      exact abs_sub_round x

/-- The numbers up to a bound, and the step of the multiples they are rounded to. -/
structure Range where
  bound : ℚ
  step : ℚ

namespace Range

variable {R : Rounding} {r r' : Range} {n t : ℚ}

/-- A number rounded to a multiple of the step. -/
def value (R : Rounding) (r : Range) (n : ℚ) : ℚ := R.round (n / r.step) * r.step

/-- No number below the bound is rounded to more of the steps. -/
def top (r : Range) : ℤ := ⌈r.bound / r.step + 1 / 2⌉ - 1

/-- No number up to the bound itself is rounded to more of the steps. -/
def upper (r : Range) : ℤ := ⌊r.bound / r.step + 1 / 2⌋

/-- No number from `n` on is rounded to fewer of the steps. -/
def bottom (r : Range) (n : ℚ) : ℤ := ⌈n / r.step - 1 / 2⌉

/-- Behind the bound of `r`, the next range rounds to no less. -/
def Joins (r r' : Range) : Prop :=
  r.bound < r'.bound ∧ (r.upper : ℚ) * r.step ≤ r'.bottom r.bound * r'.step

instance (r r' : Range) : Decidable (r.Joins r') := inferInstanceAs (Decidable (_ ∧ _))

/-! ## One range -/

/-- What `n` is rounded to, as a result for the number `s` that `n` has taken the place of. -/
theorem abs_value_sub_iff (hstep : 0 < r.step) (s n : ℚ) :
    |r.value R n - s| ≤ r.step / 2 ↔ ¬ R.Crosses (s / r.step) (n / r.step) := by
  have hs : r.value R n - s = (R.round (n / r.step) - s / r.step) * r.step := by
    rw [sub_mul, div_mul_cancel₀ s hstep.ne', value]
  rw [← R.abs_round_sub_iff, hs, abs_mul, abs_of_pos hstep, ← le_div_iff₀ hstep,
    div_right_comm, div_self hstep.ne']

theorem value_le_value (hstep : 0 < r.step) (h : n ≤ t) : r.value R n ≤ r.value R t := by
  have hround := R.mono (div_le_div_of_nonneg_right h hstep.le)
  exact mul_le_mul_of_nonneg_right (by exact_mod_cast hround) hstep.le

/-- What is near a number below the bound is at most `top`. -/
theorem le_top {s : ℚ} {q : ℤ} (hstep : 0 < r.step) (h : s < r.bound)
    (hq : (q : ℚ) ≤ s / r.step + 1 / 2) : q ≤ r.top := by
  have hlt : s / r.step < r.bound / r.step := div_lt_div_of_pos_right h hstep
  have hceil : (q : ℚ) < ⌈r.bound / r.step + 1 / 2⌉ := by
    have := Int.le_ceil (r.bound / r.step + 1 / 2)
    linarith
  have hint : q < ⌈r.bound / r.step + 1 / 2⌉ := by exact_mod_cast hceil
  rw [top]
  omega

theorem round_le_upper (hstep : 0 < r.step) (h : n ≤ r.bound) :
    R.round (n / r.step) ≤ r.upper := by
  have hle := R.le_add_half (n / r.step)
  have hdiv := div_le_div_of_nonneg_right h hstep.le
  rw [upper, Int.le_floor]
  linarith

theorem bottom_le_round (n : ℚ) : r.bottom n ≤ R.round (n / r.step) :=
  Int.ceil_le.mpr (R.sub_half_le _)

/-! ## Ranges in a row -/

variable {rs : List Range}

/-- The range that a number falls into. -/
def pick (rs : List Range) (n : ℚ) : Option Range := rs.find? fun r => decide (n < r.bound)

theorem pick_cons_of_lt (h : n < r.bound) : pick (r :: rs) n = some r :=
  List.find?_cons_of_pos (decide_eq_true h)

theorem pick_cons_of_le (h : r.bound ≤ n) : pick (r :: rs) n = pick rs n :=
  List.find?_cons_of_neg (by simp [h])

/-- Rounding is monotone over ranges that join. The ranges are those of `s` and `t`, and `n`
and `m`, which are rounded, may be on the bounds. -/
theorem value_mono {s m : ℚ} (hjoins : rs.IsChain Joins) (hsteps : ∀ r ∈ rs, 0 < r.step)
    (h : s ≤ t) (hnm : n ≤ m) (hn : ∀ r ∈ rs, s < r.bound → n ≤ r.bound)
    (hm : ∀ r ∈ rs, r.bound ≤ t → r.bound ≤ m) (hs : pick rs s = some r)
    (ht : pick rs t = some r') : r.value R n ≤ r'.value R m := by
  induction rs generalizing r s n with
  | nil => cases hs
  | cons r₀ rs ih =>
      have hstep := hsteps r₀ List.mem_cons_self
      have hsteps' : ∀ r ∈ rs, 0 < r.step := fun r hr => hsteps r (List.mem_cons_of_mem _ hr)
      have hm' : ∀ r ∈ rs, r.bound ≤ t → r.bound ≤ m :=
        fun r hr => hm r (List.mem_cons_of_mem _ hr)
      by_cases hlt : t < r₀.bound
      · rw [pick_cons_of_lt (lt_of_le_of_lt h hlt)] at hs
        rw [pick_cons_of_lt hlt] at ht
        cases hs
        cases ht
        exact value_le_value hstep hnm
      have hle := not_lt.mp hlt
      rw [pick_cons_of_le hle] at ht
      by_cases hlt' : s < r₀.bound
      · rw [pick_cons_of_lt hlt'] at hs
        cases hs
        cases rs with
        | nil => cases ht
        | cons r₁ rs =>
            -- at the bound the next range takes over
            obtain ⟨hjoin, hrest⟩ := List.isChain_cons_cons.mp hjoins
            have hstep₁ := hsteps' r₁ List.mem_cons_self
            have hround := round_le_upper (R := R) hstep (hn r₀ List.mem_cons_self hlt')
            have hbottom := bottom_le_round (R := R) (r := r₁) r₀.bound
            have hbound := hm r₀ List.mem_cons_self hle
            calc r₀.value R n ≤ r₀.upper * r₀.step :=
                  mul_le_mul_of_nonneg_right (by exact_mod_cast hround) hstep.le
              _ ≤ r₁.bottom r₀.bound * r₁.step := hjoin.2
              _ ≤ r₁.value R r₀.bound :=
                  mul_le_mul_of_nonneg_right (by exact_mod_cast hbottom) hstep₁.le
              _ ≤ r'.value R m :=
                  ih hrest hsteps' hle hbound (fun _ _ hb => hb.le) hm' (pick_cons_of_lt hjoin.1) ht
      · rw [pick_cons_of_le (not_lt.mp hlt')] at hs
        exact ih (List.IsChain.tail hjoins) hsteps' h hnm
          (fun r hr => hn r (List.mem_cons_of_mem _ hr)) hm' hs ht

end Range

end Zing.Lib
