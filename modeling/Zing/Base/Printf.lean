import Mathlib.Tactic.Zify
import Mathlib.Algebra.Order.Group.Abs
import Zing.Base.Convert

set_option autoImplicit false

/-! # Integers with a width

`%4d` fills up with blanks in front, `%02d` with zeros behind the sign. Both texts have a single
value, and they are printable: none of their bytes is a terminator or a newline.
-/

namespace Zing.Base.Detail

open Zing.Lib

/-- `%wd` -/
def padSpace (w : Nat) (v : Int) : List UInt8 :=
  List.replicate (w - (decimal v).length) 32 ++ decimal v

/-- `%0wd` -/
def padZero (w : Nat) (v : Int) : List UInt8 :=
  (if v < 0 then text "-" else []) ++
    (List.replicate (w - (decimal v).length) 48 ++ numeral 10 v.natAbs)

/-- No byte is a control character. -/
def Printable (l : List UInt8) : Prop := ∀ c ∈ l, 32 ≤ c.toNat

instance (l : List UInt8) : Decidable (Printable l) :=
  decidable_of_iff (l.all (fun c => decide (32 ≤ c.toNat)) = true) (by simp [Printable])

variable {w k : Nat} {u v : Int} {l l' : List UInt8}

/-! ## Printable texts -/

theorem Printable.append (h : Printable l) (h' : Printable l') : Printable (l ++ l') := by
  intro c hc
  rcases List.mem_append.mp hc with hc | hc
  · exact h c hc
  · exact h' c hc

theorem Printable.not_mem {c : UInt8} (h : Printable l) (hc : c.toNat < 32) : c ∉ l := by
  intro hmem
  have := h c hmem
  omega

theorem printable_replicate (n : Nat) {c : UInt8} (hc : 32 ≤ c.toNat) :
    Printable (List.replicate n c) := by
  intro b hb
  rw [List.eq_of_mem_replicate hb]
  exact hc

theorem printable_numeral (n : Nat) : Printable (numeral 10 n) := by
  intro c hc
  have := (mem_numeral hc).1
  omega

theorem printable_sign : Printable (if v < 0 then text "-" else []) := by
  intro c hc
  split at hc
  · rw [List.mem_singleton.mp hc]
    decide
  · cases hc

theorem printable_decimal (v : Int) : Printable (decimal v) :=
  printable_sign.append (printable_numeral _)

theorem printable_padSpace (w : Nat) (v : Int) : Printable (padSpace w v) :=
  (printable_replicate _ (by decide)).append (printable_decimal v)

theorem printable_padZero (w : Nat) (v : Int) : Printable (padZero w v) :=
  printable_sign.append ((printable_replicate _ (by decide)).append (printable_numeral _))

/-! ## Widths -/

theorem decimal_of_nonneg (h : 0 ≤ v) : decimal v = numeral 10 v.natAbs := by
  rw [decimal, if_neg (by omega), List.nil_append]

theorem padZero_of_nonneg (h : 0 ≤ v) :
    padZero w v = List.replicate (w - (numeral 10 v.natAbs).length) 48 ++ numeral 10 v.natAbs := by
  rw [padZero, if_neg (by omega), List.nil_append, decimal_of_nonneg h]

theorem length_padZero (hw : 0 < w) (h₀ : 0 ≤ v) (h₁ : v < 10 ^ w) : (padZero w v).length = w := by
  have hlt : v.natAbs < 10 ^ w := by
    zify
    rw [abs_of_nonneg h₀]
    exact h₁
  have hle : (numeral 10 v.natAbs).length ≤ w := (numeral_length_le (by decide) hw).mpr hlt
  rw [padZero_of_nonneg h₀, List.length_append, List.length_replicate]
  omega

theorem length_padSpace_le (hk : 0 < k) (h : v.natAbs < 10 ^ k) :
    (padSpace w v).length ≤ max w (k + 1) := by
  have hle := decimal_length_le hk h
  rw [padSpace, List.length_append, List.length_replicate]
  omega

/-! ## Values -/

theorem valueOf_padZero (h : 0 ≤ v) : valueOf (padZero w v) = v.natAbs := by
  rw [padZero_of_nonneg h, valueOf, List.foldl_append]
  have hzeros : ∀ n, (List.replicate n (48 : UInt8)).foldl
      (fun v c => 10 * v + (c.toNat - 48)) 0 = 0 := by
    intro n
    induction n with
    | zero => rfl
    | succ n ih =>
        rw [List.replicate_succ, List.foldl_cons]
        exact ih
  rw [hzeros]
  exact valueOf_numeral v.natAbs

theorem padZero_injective (hu : 0 ≤ u) (hv : 0 ≤ v) (h : padZero w u = padZero w v) : u = v := by
  have habs := congrArg valueOf h
  rw [valueOf_padZero hu, valueOf_padZero hv] at habs
  omega

/-- Without its blanks the text is the numeral. -/
theorem dropWhile_padSpace (w : Nat) (v : Int) :
    (padSpace w v).dropWhile (· == 32) = decimal v := by
  have hblanks : ∀ n, (List.replicate n (32 : UInt8) ++ decimal v).dropWhile (· == 32)
      = (decimal v).dropWhile (· == 32) := by
    intro n
    induction n with
    | zero => rfl
    | succ n ih =>
        rw [List.replicate_succ, List.cons_append, List.dropWhile_cons_of_pos (by rfl)]
        exact ih
  rw [padSpace, hblanks]
  cases hdec : decimal v with
  | nil => rfl
  | cons c l =>
      have hmem : c ∈ decimal v := by
        rw [hdec]
        exact List.mem_cons_self
      have hne : ¬ (c == 32) = true := by
        rw [beq_iff_eq]
        rintro rfl
        have := mem_decimal hmem
        revert this
        decide
      exact List.dropWhile_cons_of_neg (p := fun x => x == 32) hne

theorem padSpace_injective (h : padSpace w u = padSpace w v) : u = v := by
  apply decimal_injective
  rw [← dropWhile_padSpace w u, h, dropWhile_padSpace]

end Zing.Base.Detail
