import Zing.Lib.Assert

set_option autoImplicit false

/-! # Binary search

`lowerBound before l` is the position that `std::lower_bound` returns, by the halving of the
range that the library does; `before a` says that `a` comes before the value searched for. In
any list it is a place where `before` changes (`lowerBound_cut`), and in a list in which the
elements with `before` stand first it is where they end (`lowerBound_partition`).
-/

namespace Zing.Lib

variable {α : Type} {before : α → Bool} {l : List α}

/-- Search the `len` elements from position `first`. The fuel is at least `len`. -/
def search (before : α → Bool) (l : List α) : Nat → Nat → Nat → Nat
  | 0, first, _ => first
  | fuel + 1, first, len =>
      if len = 0 then first
      else if l[first + len / 2]?.any before then
        search before l fuel (first + len / 2 + 1) (len - len / 2 - 1)
      else search before l fuel first (len / 2)

def lowerBound (before : α → Bool) (l : List α) : Nat := search before l l.length 0 l.length

/-- The element in front of position `i`, if there is one, comes before. -/
def BeforeAt (before : α → Bool) (l : List α) (i : Nat) : Prop :=
  ∀ j a, i = j + 1 → l[j]? = some a → before a = true

/-- The element at position `i`, if there is one, does not come before. -/
def NotBeforeAt (before : α → Bool) (l : List α) (i : Nat) : Prop :=
  ∀ a, l[i]? = some a → before a = false

/-- Both ends of the range that is left keep to their side. -/
theorem search_cut {fuel first len : Nat} (hfuel : len ≤ fuel) (hlen : first + len ≤ l.length)
    (hfirst : BeforeAt before l first) (hlast : NotBeforeAt before l (first + len)) :
    search before l fuel first len ≤ l.length ∧
      BeforeAt before l (search before l fuel first len) ∧
      NotBeforeAt before l (search before l fuel first len) := by
  induction fuel generalizing first len with
  | zero =>
      have h0 : len = 0 := by omega
      subst h0
      exact ⟨hlen, hfirst, hlast⟩
  | succ fuel ih =>
      rw [search]
      by_cases h0 : len = 0
      · rw [if_pos h0]
        subst h0
        exact ⟨hlen, hfirst, hlast⟩
      · rw [if_neg h0]
        have hmid : first + len / 2 < l.length := by omega
        have hget : l[first + len / 2]? = some l[first + len / 2] := List.getElem?_eq_getElem hmid
        by_cases hb : before l[first + len / 2]
        · rw [if_pos (by rw [hget]; exact hb)]
          apply ih
          · omega
          · omega
          · intro j a hj ha
            obtain rfl : j = first + len / 2 := by omega
            rw [hget] at ha
            cases ha
            exact hb
          · rw [show first + len / 2 + 1 + (len - len / 2 - 1) = first + len by omega]
            exact hlast
        · rw [if_neg (by rw [hget]; exact hb)]
          apply ih
          · omega
          · omega
          · exact hfirst
          · intro a ha
            rw [hget] at ha
            cases ha
            exact Bool.eq_false_iff.mpr hb

/-- The search stops where `before` changes, in whatever order the elements are. -/
theorem lowerBound_cut (before : α → Bool) (l : List α) :
    lowerBound before l ≤ l.length ∧ BeforeAt before l (lowerBound before l) ∧
      NotBeforeAt before l (lowerBound before l) := by
  apply search_cut (Nat.le_refl _) (Nat.le_of_eq (Nat.zero_add _))
  · intro j a hj
    omega
  · intro a ha
    rw [Nat.zero_add, List.getElem?_eq_none (Nat.le_refl _)] at ha
    cases ha

/-- Where the elements with `before` stand first, the search finds the first of the others. -/
theorem lowerBound_partition (hl : l.Pairwise fun a b => before b = true → before a = true)
    {j : Nat} {a : α} (ha : l[j]? = some a) : before a = true ↔ j < lowerBound before l := by
  obtain ⟨hle, hbefore, hnot⟩ := lowerBound_cut before l
  obtain ⟨hj, rfl⟩ := List.getElem?_eq_some_iff.mp ha
  rw [List.pairwise_iff_getElem] at hl
  generalize lowerBound before l = i at hle hbefore hnot ⊢
  constructor
  · intro hb
    apply Decidable.byContradiction
    intro hij
    have hi : i < l.length := by omega
    have hni := hnot _ (List.getElem?_eq_getElem hi)
    obtain hlt | heq : i < j ∨ i = j := by omega
    · rw [hl i j hi hj hlt hb] at hni
      cases hni
    · subst heq
      rw [hb] at hni
      cases hni
  · intro hji
    have hpos : i ≠ 0 := by omega
    obtain ⟨k, rfl⟩ := Nat.exists_eq_succ_of_ne_zero hpos
    have hk : k < l.length := by omega
    have hbk := hbefore k _ rfl (List.getElem?_eq_getElem hk)
    obtain hlt | heq : j < k ∨ j = k := by omega
    · exact hl j k hj hk hlt hbk
    · subst heq
      exact hbk

end Zing.Lib
