import Mathlib.Algebra.Group.Nat.Defs
import Mathlib.Data.List.Nodup

set_option autoImplicit false

/-! # Round robin

A cursor that goes through a list from the front to the back, again and again. `picks xs m` is
what it has picked in `m` turns; each element of the list is picked every `xs.length` turns, so
that after any number of turns no element is ahead of another by more than one (`count_picks`).
-/

namespace Zing.Lib.RoundRobin

variable {α : Type}

/-- The position of the cursor behind a pick at position `next` of `n`. -/
def advance (n next : Nat) : Nat := if n ≤ next + 1 then 0 else next + 1

theorem advance_mod {n : Nat} (hn : 0 < n) (m : Nat) : advance n (m % n) = (m + 1) % n := by
  have hlt := Nat.mod_lt m hn
  rw [advance, Nat.add_mod]
  by_cases hone : n = 1
  · subst hone
    simp [Nat.mod_one]
  · have hmod : 1 % n = 1 := Nat.mod_eq_of_lt (by omega)
    rw [hmod]
    by_cases hlast : n ≤ m % n + 1
    · have hend : m % n + 1 = n := by omega
      rw [if_pos hlast, hend, Nat.mod_self]
    · rw [if_neg hlast, Nat.mod_eq_of_lt (show m % n + 1 < n by omega)]

/-- The elements that are picked in `m` turns. -/
def picks (xs : List α) (m : Nat) : List α :=
  (List.range m).filterMap fun k => xs[k % xs.length]?

theorem picks_succ (xs : List α) (m : Nat) {x : α} (hx : xs[m % xs.length]? = some x) :
    picks xs (m + 1) = picks xs m ++ [x] := by
  rw [picks, picks, List.range_succ, List.filterMap_append, List.filterMap_cons, hx]
  rfl

theorem exists_pick {xs : List α} (hxs : xs ≠ []) (m : Nat) :
    ∃ x, xs[m % xs.length]? = some x := by
  have hlt := Nat.mod_lt m (List.length_pos_of_ne_nil hxs)
  exact ⟨_, List.getElem?_eq_getElem hlt⟩

/-- The turn of position `i` comes in turn `m` if and only if one more round is completed. -/
theorem turn_iff {n i : Nat} (hi : i < n) (m : Nat) : m % n = i ↔ n ∣ m + (n - 1 - i) + 1 := by
  have hsum : m + (n - 1 - i) + 1 = m + (n - i) := by omega
  rw [hsum]
  constructor
  · intro hm
    have hdiv := Nat.div_add_mod m n
    refine ⟨m / n + 1, ?_⟩
    rw [Nat.mul_add, Nat.mul_one]
    omega
  · rintro ⟨q, hq⟩
    have hpos : 0 < q := by
      by_contra hzero
      obtain rfl : q = 0 := by omega
      omega
    obtain ⟨r, rfl⟩ : ∃ r, q = r + 1 := ⟨q - 1, by omega⟩
    have hm : m = n * r + i := by
      rw [Nat.mul_add, Nat.mul_one] at hq
      omega
    rw [hm, Nat.mul_add_mod, Nat.mod_eq_of_lt hi]

/-- How often the element at position `i` is picked in `m` turns. -/
theorem count_picks [DecidableEq α] {xs : List α} (hnodup : xs.Nodup) {i : Nat} {x : α}
    (hx : xs[i]? = some x) (m : Nat) :
    (picks xs m).count x = (m + (xs.length - 1 - i)) / xs.length := by
  have hi : i < xs.length := (List.getElem?_eq_some_iff.mp hx).1
  have hne : xs ≠ [] := by
    rintro rfl
    exact Nat.not_lt_zero i hi
  induction m with
  | zero =>
      rw [Nat.zero_add, Nat.div_eq_of_lt (by omega)]
      rfl
  | succ m ih =>
      obtain ⟨y, hy⟩ := exists_pick hne m
      have hsame : y = x ↔ m % xs.length = i := by
        have hlt := Nat.mod_lt m (List.length_pos_of_ne_nil hne)
        constructor
        · intro heq
          rw [heq, ← hx] at hy
          exact (List.getElem?_inj hlt hnodup).mp hy
        · intro heq
          rw [heq, hx, Option.some.injEq] at hy
          exact hy.symm
      have hsucc : m + 1 + (xs.length - 1 - i) = (m + (xs.length - 1 - i)) + 1 := by omega
      rw [picks_succ xs m hy, List.count_append, ih, List.count_singleton, hsucc, Nat.succ_div]
      congr 1
      by_cases hturn : m % xs.length = i
      · rw [if_pos ((turn_iff hi m).mp hturn)]
        simp [hsame.mpr hturn]
      · rw [if_neg ((turn_iff hi m).not.mp hturn)]
        simp [hsame.not.mpr hturn]

/-- No element is ahead of another by more than one. -/
theorem count_picks_le [DecidableEq α] {xs : List α} (hnodup : xs.Nodup) {x y : α} (hx : x ∈ xs)
    (hy : y ∈ xs) (m : Nat) : (picks xs m).count x ≤ (picks xs m).count y + 1 := by
  obtain ⟨i, hi⟩ := List.mem_iff_getElem?.mp hx
  obtain ⟨j, hj⟩ := List.mem_iff_getElem?.mp hy
  have hilt := (List.getElem?_eq_some_iff.mp hi).1
  have hjlt := (List.getElem?_eq_some_iff.mp hj).1
  rw [count_picks hnodup hi, count_picks hnodup hj]
  calc (m + (xs.length - 1 - i)) / xs.length ≤ (m + xs.length) / xs.length :=
        Nat.div_le_div_right (by omega)
    _ = m / xs.length + 1 := Nat.add_div_right m (by omega)
    _ ≤ (m + (xs.length - 1 - j)) / xs.length + 1 :=
        Nat.add_le_add_right (Nat.div_le_div_right (by omega)) 1

end Zing.Lib.RoundRobin
