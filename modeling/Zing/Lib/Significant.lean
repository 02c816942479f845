import Mathlib.Data.Nat.Log
import Zing.Lib.Rounding

set_option autoImplicit false

/-! # Significant bits

An integer rounded to its first `p` binary digits, as a binary floating-point number with `p`
bits has it. The digits that are dropped are `excess p s` many, so the multiples of
`2 ^ excess p s` stay as they are, and with them all integers of at most `p` digits. Rounding
is monotone, also where the number gets a digit more.
-/

namespace Zing.Lib

/-- How many binary digits there are behind the first `p`. -/
def excess (p : Nat) (s : ℤ) : Nat := s.natAbs.log2 + 1 - p

/-- The integer with `p` significant bits that `s` is rounded to. -/
def significant (R : Rounding) (p : Nat) (s : ℤ) : ℤ :=
  R.round (s / 2 ^ excess p s) * 2 ^ excess p s

variable {R : Rounding} {p : Nat} {s t : ℤ}

theorem significant_of_dvd (h : (2 : ℤ) ^ excess p s ∣ s) : significant R p s = s := by
  obtain ⟨k, hk⟩ := h
  have hdiv : (s : ℚ) / 2 ^ excess p s = k := by
    rw [div_eq_iff (by positivity), mul_comm]
    exact_mod_cast hk
  rw [significant, hdiv, R.intCast, mul_comm]
  exact hk.symm

theorem significant_of_lt (hp : 0 < p) (h : s.natAbs < 2 ^ p) : significant R p s = s := by
  have hexcess : excess p s = 0 := by
    rw [excess, Nat.sub_eq_zero_iff_le]
    by_cases hs : s.natAbs = 0
    · rw [hs]
      exact hp
    · exact (Nat.log2_lt hs).mpr h
  apply significant_of_dvd
  rw [hexcess, pow_zero]
  exact one_dvd s

theorem significant_nonneg (h : 0 ≤ s) : 0 ≤ significant R p s := by
  apply mul_nonneg (R.nonneg _) (by positivity)
  exact div_nonneg (by exact_mod_cast h) (by positivity)

theorem excess_mono (hs : 0 ≤ s) (h : s ≤ t) : excess p s ≤ excess p t := by
  have habs : s.natAbs ≤ t.natAbs := by omega
  have hlog : s.natAbs.log2 ≤ t.natAbs.log2 := by
    rw [Nat.log2_eq_log_two, Nat.log2_eq_log_two]
    exact Nat.log_mono_right habs
  exact Nat.sub_le_sub_right (Nat.succ_le_succ hlog) p

/-- Rounding gives no more than the next power of two. -/
theorem significant_le (hs : 0 ≤ s) : significant R p s ≤ 2 ^ (p + excess p s) := by
  have hlt : s.natAbs < 2 ^ (p + excess p s) := by
    apply lt_of_lt_of_le (Nat.lt_log2_self (n := s.natAbs))
    apply Nat.pow_le_pow_right (by decide)
    rw [excess]
    omega
  have hcast : (s : ℚ) ≤ 2 ^ p * 2 ^ excess p s := by
    rw [← pow_add]
    have hint : s ≤ 2 ^ (p + excess p s) := by
      calc s = s.natAbs := (Int.natAbs_of_nonneg hs).symm
        _ ≤ ((2 ^ (p + excess p s) : ℕ) : ℤ) := by exact_mod_cast hlt.le
        _ = 2 ^ (p + excess p s) := by push_cast; rfl
    exact_mod_cast hint
  have hdiv : (s : ℚ) / 2 ^ excess p s ≤ ((2 ^ p : ℤ) : ℚ) := by
    rw [div_le_iff₀ (by positivity)]
    push_cast
    exact hcast
  have hround := R.mono hdiv
  rw [R.intCast] at hround
  rw [significant, pow_add]
  exact mul_le_mul_of_nonneg_right hround (by positivity)

/-- Where digits are dropped, rounding gives no less than the power of two below. -/
theorem le_significant (hp : 0 < p) (hs : 0 ≤ s) (he : 0 < excess p s) :
    2 ^ (p + excess p s - 1) ≤ significant R p s := by
  have hlog : p + excess p s - 1 = s.natAbs.log2 := by
    rw [excess] at he ⊢
    omega
  have hne : s.natAbs ≠ 0 := by
    intro hzero
    rw [excess, hzero] at he
    simp at he
    omega
  have hle : 2 ^ (p + excess p s - 1) ≤ s.natAbs := by
    rw [hlog]
    exact Nat.log2_self_le hne
  have hsplit : p + excess p s - 1 = (p - 1) + excess p s := by omega
  have hcast : (2 : ℚ) ^ (p - 1) * 2 ^ excess p s ≤ s := by
    rw [← pow_add, ← hsplit]
    have hint : (2 : ℤ) ^ (p + excess p s - 1) ≤ s := by
      calc (2 : ℤ) ^ (p + excess p s - 1) = ((2 ^ (p + excess p s - 1) : ℕ) : ℤ) := by
            push_cast
            rfl
        _ ≤ s.natAbs := by exact_mod_cast hle
        _ = s := Int.natAbs_of_nonneg hs
    exact_mod_cast hint
  have hdiv : ((2 ^ (p - 1) : ℤ) : ℚ) ≤ s / 2 ^ excess p s := by
    rw [le_div_iff₀ (by positivity)]
    push_cast
    exact hcast
  have hround := R.mono hdiv
  rw [R.intCast] at hround
  rw [significant, hsplit, pow_add]
  exact mul_le_mul_of_nonneg_right hround (by positivity)

theorem significant_mono (hp : 0 < p) (hs : 0 ≤ s) (h : s ≤ t) :
    significant R p s ≤ significant R p t := by
  rcases (excess_mono (p := p) hs h).eq_or_lt with he | he
  · rw [significant, significant, he]
    apply mul_le_mul_of_nonneg_right _ (by positivity)
    apply R.mono
    exact div_le_div_of_nonneg_right (by exact_mod_cast h) (by positivity)
  · -- a power of two lies between them
    calc significant R p s ≤ 2 ^ (p + excess p s) := significant_le hs
      _ ≤ 2 ^ (p + excess p t - 1) := pow_le_pow_right₀ (by decide) (by omega)
      _ ≤ significant R p t := le_significant hp (hs.trans h) (Nat.zero_lt_of_lt he)

end Zing.Lib
