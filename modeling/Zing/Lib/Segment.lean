import Mathlib.Data.List.TakeDrop

set_option autoImplicit false

/-! # Segments of a vector

The operations by which a program edits a stretch of a vector in place, on lists: reading
the segment between two indices, copying a list over the segment that starts at an index,
and resizing. Each operation comes with what it does to the other segments.
-/

namespace Zing.Lib

variable {α : Type}

/-- The elements at the positions from `i` up to, not including, `j`. -/
def segment (l : List α) (i j : Nat) : List α := (l.take j).drop i

/-- Copy `xs` over the elements from position `i` on. -/
def overwrite (l : List α) (i : Nat) (xs : List α) : List α :=
  l.take i ++ (xs ++ l.drop (i + xs.length))

/-- Cut the vector to length `n`, or extend it with copies of `a`. -/
def resize (l : List α) (n : Nat) (a : α) : List α :=
  l.take n ++ List.replicate (n - l.length) a

/-! ## Lengths -/

theorem length_segment (l : List α) (i j : Nat) (hj : j ≤ l.length) :
    (segment l i j).length = j - i := by
  simp [segment, Nat.min_eq_left hj]

theorem length_overwrite (l : List α) (i : Nat) (xs : List α)
    (h : i + xs.length ≤ l.length) : (overwrite l i xs).length = l.length := by
  simp only [overwrite, List.length_append, List.length_take, List.length_drop]
  omega

theorem length_resize (l : List α) (n : Nat) (a : α) : (resize l n a).length = n := by
  simp only [resize, List.length_append, List.length_take, List.length_replicate]
  omega

/-! ## Segments of a segment -/

theorem segment_append (l : List α) {i j k : Nat} (hij : i ≤ j) (hjk : j ≤ k) :
    segment l i j ++ segment l j k = segment l i k := by
  have hsplit : l.take k = l.take j ++ (l.take k).drop j := by
    conv_lhs => rw [← List.take_append_drop j (l.take k)]
    rw [List.take_take, Nat.min_eq_left hjk]
  rw [segment, segment, segment]
  conv_rhs => rw [hsplit]
  by_cases hj : j ≤ l.length
  · rw [List.drop_append_of_le_length (by rw [List.length_take]; omega)]
  · have hnil : (l.take k).drop j = [] := by
      rw [List.drop_eq_nil_iff, List.length_take]; omega
    rw [hnil, List.append_nil, List.append_nil]

theorem drop_segment (l : List α) (i j n : Nat) :
    (segment l i j).drop n = segment l (i + n) j := by
  rw [segment, segment, List.drop_drop]

theorem take_segment (l : List α) (i j n : Nat) (h : i + n ≤ j) :
    (segment l i j).take n = segment l i (i + n) := by
  rw [segment, segment, List.take_drop, List.take_take, Nat.min_eq_left h]

theorem segment_self (l : List α) (i : Nat) : segment l i i = [] := by
  rw [segment, List.drop_eq_nil_iff, List.length_take]
  exact Nat.min_le_left _ _

/-! ## Segments of an edited vector -/

/-- The segment that was written is what was written. -/
theorem segment_overwrite_self (l : List α) (i : Nat) (xs : List α) (hi : i ≤ l.length) :
    segment (overwrite l i xs) i (i + xs.length) = xs := by
  have hlen : (l.take i).length = i := List.length_take_of_le hi
  rw [segment, ← List.take_drop, overwrite, List.drop_append_of_le_length (by omega),
    List.drop_of_length_le (by omega), List.nil_append, List.take_left']
  rfl

/-- A segment before the written one is unchanged. -/
theorem segment_overwrite_before (l : List α) (i : Nat) (xs : List α) (j k : Nat)
    (hk : k ≤ i) (hi : i ≤ l.length) :
    segment (overwrite l i xs) j k = segment l j k := by
  rw [segment, segment, overwrite,
    List.take_append_of_le_length (by rw [List.length_take_of_le hi]; exact hk),
    List.take_take, Nat.min_eq_left hk]

/-- A segment after the written one is unchanged. -/
theorem segment_overwrite_after (l : List α) (i : Nat) (xs : List α) (j k : Nat)
    (hj : i + xs.length ≤ j) (hl : i + xs.length ≤ l.length) :
    segment (overwrite l i xs) j k = segment l j k := by
  have hdrop : (overwrite l i xs).drop j = l.drop j := by
    have hlen : (l.take i ++ xs).length = i + xs.length := by
      rw [List.length_append, List.length_take_of_le (by omega)]
    rw [overwrite, ← List.append_assoc, List.drop_append, hlen,
      List.drop_of_length_le (by omega), List.nil_append, List.drop_drop]
    congr 1
    omega
  rw [segment, segment, List.drop_take, List.drop_take, hdrop]

/-- Resizing keeps the segments that stay inside. -/
theorem segment_resize (l : List α) (n : Nat) (a : α) (i j : Nat) (hn : j ≤ n)
    (hj : j ≤ l.length) : segment (resize l n a) i j = segment l i j := by
  rw [segment, segment, resize,
    List.take_append_of_le_length (by rw [List.length_take]; omega), List.take_take,
    Nat.min_eq_left hn]

end Zing.Lib
