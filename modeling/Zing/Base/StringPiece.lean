import Zing.Lib.CInt

set_option autoImplicit false

/-! # `StringPiece`

A pointer into a string and a length. The length is an `int`: the constructors cast a
`size_t` down to it, and a callee that takes the length as a `size_t` gets it cast back up. Up
to `INT_MAX` bytes the two casts cancel (`bytes_ofString`); beyond, the piece is shorter than
its string or longer than any memory (`bytes_of_long`).
-/

namespace Zing.Base

open Lib

/-- `class StringPiece`: the memory from `ptr_` on, and the length. -/
structure StringPiece where
  ptr : List UInt8
  length : Int

/-- More bytes than a string or a vector can have. -/
def maxSize : Nat := 2 ^ 63 - 1

namespace StringPiece

/-- `StringPiece(const string& str)` -/
def ofString (str : List UInt8) : StringPiece := ⟨str, narrow 32 str.length⟩

/-- `size()` as an argument of type `size_t`. -/
def sizeT (s : StringPiece) : Nat := toUnsigned 64 s.length

/-- The bytes that `data()` and `size()` stand for, if there are so many. -/
def bytes (s : StringPiece) : Option (List UInt8) :=
  if s.sizeT ≤ s.ptr.length then some (s.ptr.take s.sizeT) else none

/-- There is memory behind the pointer for the length, which is an `int`. -/
def Readable (s : StringPiece) : Prop := Fits 32 s.length ∧ s.length ≤ s.ptr.length

instance (s : StringPiece) : Decidable s.Readable := inferInstanceAs (Decidable (_ ∧ _))

/-! ## The two casts -/

/-- A `size_t` cast to `int` and back. -/
def throughInt (n : Nat) : Nat := toUnsigned 64 (narrow 32 n)

theorem throughInt_eq {n : Nat} (h : n < 2 ^ 31) : throughInt n = n := by
  have hfits : narrow 32 n = n := narrow_eq (by decide) (by simp only [Fits]; omega)
  rw [throughInt, hfits]
  exact toUnsigned_natCast (by omega)

/-- The `int` that a length is cast to is at most the length. -/
theorem narrow_range (n : Nat) : Fits 32 (narrow 32 n) ∧ narrow 32 n ≤ n := by
  have hlow := Int.le_bmod (x := (n : Int)) (m := 2 ^ 32) (by decide)
  have hhigh := Int.bmod_lt (x := (n : Int)) (m := 2 ^ 32) (by decide)
  have hle : narrow 32 n ≤ n := by
    by_cases h : n < 2 ^ 31
    · have hfits : Fits 32 (n : Int) := by
        simp only [Fits]
        omega
      rw [narrow_eq (by decide) hfits]
    · simp only [narrow]
      omega
  simp only [narrow, Fits] at hle ⊢
  omega

/-- A length that was cast to `int` does not go beyond the memory. -/
theorem readable_narrow {str : List UInt8} {n : Nat} (h : n ≤ str.length) :
    Readable ⟨str, narrow 32 n⟩ := by
  obtain ⟨hfits, hle⟩ := narrow_range n
  simp only [Readable]
  exact ⟨hfits, Int.le_trans hle (Int.ofNat_le.mpr h)⟩

theorem throughInt_of_long {n : Nat} (h : 2 ^ 31 ≤ n) :
    throughInt n < n ∧ throughInt n < 2 ^ 31 ∨ 2 ^ 64 - 2 ^ 31 ≤ throughInt n := by
  obtain ⟨⟨hlow, hhigh⟩, -⟩ := narrow_range n
  have hcast : (throughInt n : Int) = narrow 32 n % (2 ^ 64 : Nat) := by
    rw [throughInt, cast_toUnsigned]
  have hpow : ((2 ^ 64 : Nat) : Int) = 2 ^ 64 := by norm_num
  rw [hpow] at hcast
  by_cases hneg : narrow 32 n < 0
  · right
    have hmod : narrow 32 n % 2 ^ 64 = narrow 32 n + 2 ^ 64 := by omega
    rw [hmod] at hcast
    omega
  · left
    omega

variable {str : List UInt8}

theorem ptr_ofString : (ofString str).ptr = str := rfl

theorem sizeT_ofString : (ofString str).sizeT = throughInt str.length := by
  rw [sizeT, ofString, throughInt]

theorem bytes_ofString (h : str.length < 2 ^ 31) : (ofString str).bytes = some str := by
  rw [bytes, sizeT_ofString, ptr_ofString, throughInt_eq h, if_pos (Nat.le_refl _),
    List.take_length]

theorem bytes_of_long (h : 2 ^ 31 ≤ str.length) (hmax : str.length ≤ maxSize) :
    (ofString str).bytes = none ∨
      ∃ n < str.length, (ofString str).bytes = some (str.take n) := by
  rw [maxSize] at hmax
  rw [bytes, sizeT_ofString, ptr_ofString]
  rcases throughInt_of_long h with ⟨hlt, -⟩ | hge
  · right
    refine ⟨throughInt str.length, hlt, ?_⟩
    rw [if_pos hlt.le]
  · left
    rw [if_neg]
    omega

end StringPiece

end Zing.Base
