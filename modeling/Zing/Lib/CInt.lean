import Mathlib.Tactic.Ring
import Mathlib.Tactic.Positivity
import Mathlib.Tactic.Zify
import Zing.Lib.Assert

set_option autoImplicit false

/-! # Signed integer expressions of C

A signed type of `w` bits has the integers from `-2 ^ (w - 1)` to `2 ^ (w - 1) - 1`. An
expression whose value is none of them is undefined, and so is a division by zero; a division
truncates. `Signed w` is what evaluating an expression comes to. The rules below evaluate one
operation whose result the type has; `Signed.val_div` also turns the truncating division of
numbers that are not negative into the division of `Int`.
-/

namespace Zing.Lib

/-- What makes an expression undefined. -/
inductive Undefined
  | overflow
  | divideByZero
deriving DecidableEq, Repr

/-- `w` bits hold `z` in two's complement. -/
def Fits (w : Nat) (z : Int) : Prop := -2 ^ (w - 1) ≤ z ∧ z < 2 ^ (w - 1)

instance (w : Nat) (z : Int) : Decidable (Fits w z) := inferInstanceAs (Decidable (_ ∧ _))

theorem fits_32 {z : Int} : Fits 32 z ↔ -2147483648 ≤ z ∧ z ≤ 2147483647 := by
  simp only [Fits]
  omega

/-- The value of a type of `w` bits that an integer is converted to: the one that has the
same low bits. -/
def narrow (w : Nat) (z : Int) : Int := z.bmod (2 ^ w)

/-- A value of the type stays. -/
theorem narrow_eq {w : Nat} {z : Int} (hw : 0 < w) (h : Fits w z) : narrow w z = z := by
  obtain ⟨k, rfl⟩ := Nat.exists_eq_succ_of_ne_zero hw.ne'
  have hpow : ((2 ^ (k + 1) : Nat) : Int) = 2 * 2 ^ k := by
    push_cast
    ring
  simp only [Fits, Nat.succ_eq_add_one, Nat.add_sub_cancel] at h
  apply Int.bmod_eq_of_le
  · rw [hpow]
    omega
  · rw [hpow]
    omega

/-- The value of the unsigned type of `w` bits that an integer is converted to. -/
def toUnsigned (w : Nat) (z : Int) : Nat := (z % 2 ^ w).toNat

theorem toUnsigned_lt (w : Nat) (z : Int) : toUnsigned w z < 2 ^ w := by
  have hpos : (0 : Int) < 2 ^ w := by positivity
  have hlt := Int.emod_lt_of_pos z hpos
  have hnonneg := Int.emod_nonneg z hpos.ne'
  zify
  rw [toUnsigned, Int.toNat_of_nonneg hnonneg]
  exact hlt

theorem cast_toUnsigned (w : Nat) (z : Int) : (toUnsigned w z : Int) = z % (2 ^ w : Nat) := by
  have hpos : (0 : Int) < 2 ^ w := by positivity
  rw [toUnsigned, Int.toNat_of_nonneg (Int.emod_nonneg z hpos.ne')]
  push_cast
  rfl

/-- A value that the unsigned type has is converted to itself. -/
theorem toUnsigned_natCast {w n : Nat} (h : n < 2 ^ w) : toUnsigned w n = n := by
  zify
  rw [cast_toUnsigned]
  exact Int.emod_eq_of_lt (by positivity) (by exact_mod_cast h)

/-- The detour over the unsigned type changes nothing. -/
theorem narrow_toUnsigned {w : Nat} {z : Int} (hw : 0 < w) (h : Fits w z) :
    narrow w (toUnsigned w z) = z := by
  rw [narrow, cast_toUnsigned, Int.emod_bmod]
  exact narrow_eq hw h

theorem toUnsigned_narrow {w x : Nat} (h : x < 2 ^ w) : toUnsigned w (narrow w x) = x := by
  zify
  rw [cast_toUnsigned, narrow, Int.bmod_emod]
  exact Int.emod_eq_of_lt (by positivity) (by exact_mod_cast h)

/-- Truncating division and the division of `Int` agree, or the remainder of the first is
negative. -/
theorem trunc_or_floor (a : Int) {b : Int} (hb : 0 < b) :
    a.tdiv b = a / b ∧ a.tmod b = a % b ∨ a.tdiv b = a / b + 1 ∧ a.tmod b = a % b - b := by
  rw [Int.tdiv_eq_ediv, Int.tmod_eq_emod]
  split
  · exact Or.inl ⟨by omega, by omega⟩
  · exact Or.inr ⟨by rw [Int.sign_eq_one_of_pos hb], by omega⟩

/-- An expression of the signed type of `w` bits: its value, or that it is undefined. -/
structure Signed (w : Nat) where
  eval : Except Undefined Int

namespace Signed

variable {w : Nat} {a b : Int}

/-- The value `z`, if the type has it. -/
def ofInt (w : Nat) (z : Int) : Except Undefined Int := do
  check (Fits w z) .overflow
  return z

/-- Evaluate both operands, then apply the operation. -/
def binary (f : Int → Int → Except Undefined Int) (x y : Signed w) : Signed w where
  eval := do
    let a ← x.eval
    let b ← y.eval
    f a b

/-- The quotient, which `%` needs too. -/
def quotient (w : Nat) (a b : Int) : Except Undefined Int := do
  check (b ≠ 0) .divideByZero
  ofInt w (a.tdiv b)

/-- An expression that is a value: a variable or a constant. -/
def val (z : Int) : Signed w := ⟨.ok z⟩

instance : Coe Int (Signed w) := ⟨val⟩

instance (n : Nat) : OfNat (Signed w) n := ⟨val n⟩

instance : Add (Signed w) := ⟨binary fun a b => ofInt w (a + b)⟩

instance : Sub (Signed w) := ⟨binary fun a b => ofInt w (a - b)⟩

instance : Mul (Signed w) := ⟨binary fun a b => ofInt w (a * b)⟩

instance : Div (Signed w) := ⟨binary (quotient w)⟩

instance : Mod (Signed w) :=
  ⟨binary fun a b => do
    let _ ← quotient w a b
    return a.tmod b⟩

/-! ## Evaluation

The rules are for `simp (disch := omega)`: that the type has the result is left to `omega`,
with `Fits` unfolded. -/

@[simp] theorem eval_val (z : Int) : (val z : Signed w).eval = .ok z := rfl

@[simp] theorem ofNat_eq (n : Nat) : (OfNat.ofNat n : Signed w) = val (OfNat.ofNat n : Int) := rfl

theorem ofInt_eq (h : Fits w a) : ofInt w a = .ok a := by
  rw [ofInt, check_bind h]
  rfl

@[simp] theorem val_add (h : -2 ^ (w - 1) ≤ a + b ∧ a + b < 2 ^ (w - 1)) :
    (val a + val b : Signed w) = val (a + b) :=
  congrArg mk (ofInt_eq h)

@[simp] theorem val_sub (h : -2 ^ (w - 1) ≤ a - b ∧ a - b < 2 ^ (w - 1)) :
    (val a - val b : Signed w) = val (a - b) :=
  congrArg mk (ofInt_eq h)

@[simp] theorem val_mul (h : -2 ^ (w - 1) ≤ a * b ∧ a * b < 2 ^ (w - 1)) :
    (val a * val b : Signed w) = val (a * b) :=
  congrArg mk (ofInt_eq h)

theorem quotient_eq (hb : b ≠ 0) (h : Fits w (a.tdiv b)) : quotient w a b = .ok (a.tdiv b) := by
  rw [quotient, check_bind hb, ofInt_eq h]

theorem val_tdiv (hb : b ≠ 0) (h : -2 ^ (w - 1) ≤ a.tdiv b ∧ a.tdiv b < 2 ^ (w - 1)) :
    (val a / val b : Signed w) = val (a.tdiv b) :=
  congrArg mk (quotient_eq hb h)

theorem val_tmod (hb : b ≠ 0) (h : -2 ^ (w - 1) ≤ a.tdiv b ∧ a.tdiv b < 2 ^ (w - 1)) :
    (val a % val b : Signed w) = val (a.tmod b) := by
  have hq : (do let _ ← quotient w a b; return a.tmod b) = Except.ok (a.tmod b) := by
    rw [quotient_eq hb h]
    rfl
  exact congrArg mk hq

/-- Truncation does not show where neither number is negative. -/
@[simp] theorem val_div (ha : 0 ≤ a) (hb : 0 < b)
    (h : -2 ^ (w - 1) ≤ a / b ∧ a / b < 2 ^ (w - 1)) :
    (val a / val b : Signed w) = val (a / b) := by
  rw [← Int.tdiv_eq_ediv_of_nonneg ha] at h ⊢
  exact val_tdiv (by omega) h

@[simp] theorem val_mod (ha : 0 ≤ a) (hb : 0 < b)
    (h : -2 ^ (w - 1) ≤ a / b ∧ a / b < 2 ^ (w - 1)) :
    (val a % val b : Signed w) = val (a % b) := by
  rw [← Int.tdiv_eq_ediv_of_nonneg ha] at h
  rw [← Int.tmod_eq_emod_of_nonneg ha]
  exact val_tmod (by omega) h

end Signed

/-- The value of an expression of type `int`. -/
def int (e : Signed 32) : Except Undefined Int := e.eval

/-- The value of an expression of type `time_t`. -/
def time_t (e : Signed 64) : Except Undefined Int := e.eval

@[simp] theorem int_val (z : Int) : int (Signed.val z) = .ok z := rfl

@[simp] theorem time_t_val (z : Int) : time_t (Signed.val z) = .ok z := rfl

end Zing.Lib
