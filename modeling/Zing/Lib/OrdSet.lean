import Mathlib.Data.List.Sort
import Mathlib.Order.Basic

set_option autoImplicit false

/-! # Ordered sets

A finite set that is iterated in increasing order, as `std::set` is: the strictly increasing
list of its elements.

* `insert` also says whether the element was new, as the `second` of the pair that
  `std::set::insert` returns.
* `erase` and `count` together are `std::set::erase`, which returns the number of elements
  it removed.
* `below x` lists the elements in front of `lower_bound(x)`, and `fromLowerBound x` is what is
  left when these are erased.
-/

namespace Zing.Lib

/-- A set of elements of a linear order, kept strictly increasing. -/
structure OrdSet (α : Type) [LinearOrder α] where
  elems : List α
  sorted : elems.Pairwise (· < ·)

namespace OrdSet

variable {α : Type} [LinearOrder α]

instance : Membership α (OrdSet α) := ⟨fun s a => a ∈ s.elems⟩

instance (a : α) (s : OrdSet α) : Decidable (a ∈ s) :=
  inferInstanceAs (Decidable (a ∈ s.elems))

theorem mem_def {a : α} {s : OrdSet α} : a ∈ s ↔ a ∈ s.elems := Iff.rfl

def empty : OrdSet α := ⟨[], List.Pairwise.nil⟩

@[simp] theorem notMem_empty (a : α) : a ∉ (empty : OrdSet α) := List.not_mem_nil

def size (s : OrdSet α) : Nat := s.elems.length

/-- The first element, which `begin()` points to. -/
def first (s : OrdSet α) : Option α := s.elems.head?

/-- The number of elements equal to `a`. -/
def count (s : OrdSet α) (a : α) : Nat := if a ∈ s then 1 else 0

/-! ## Insertion -/

/-- A new element keeps its place in the order: nothing is inserted twice. -/
theorem sorted_orderedInsert {a : α} {l : List α} (h : l.Pairwise (· < ·)) (ha : a ∉ l) :
    (l.orderedInsert (· ≤ ·) a).Pairwise (· < ·) := by
  have hle : l.Pairwise (· ≤ ·) := h.imp le_of_lt
  have hnodup : (l.orderedInsert (· ≤ ·) a).Nodup := by
    rw [(List.perm_orderedInsert (· ≤ ·) a l).nodup_iff, List.nodup_cons]
    exact ⟨ha, h.imp ne_of_lt⟩
  have hsorted : (l.orderedInsert (· ≤ ·) a).Pairwise (· ≤ ·) := hle.orderedInsert a l
  exact (hsorted.and hnodup).imp fun hxy => lt_of_le_of_ne hxy.1 hxy.2

/-- The set with `a` in it, and whether `a` was new. -/
def insert (s : OrdSet α) (a : α) : OrdSet α × Bool :=
  if h : a ∈ s then (s, false)
  else (⟨s.elems.orderedInsert (· ≤ ·) a, sorted_orderedInsert s.sorted h⟩, true)

@[simp] theorem mem_insert {a x : α} {s : OrdSet α} : x ∈ (s.insert a).1 ↔ x = a ∨ x ∈ s := by
  unfold insert
  split
  · case isTrue h =>
      constructor
      · exact Or.inr
      · rintro (rfl | hx)
        · exact h
        · exact hx
  · exact List.mem_orderedInsert (· ≤ ·)

theorem insert_new {a : α} {s : OrdSet α} (h : a ∉ s) : (s.insert a).2 = true := by
  rw [insert, dif_neg h]

theorem size_insert {a : α} {s : OrdSet α} (h : a ∉ s) :
    (s.insert a).1.size = s.size + 1 := by
  rw [insert, dif_neg h]
  exact List.orderedInsert_length (· ≤ ·) s.elems a

/-! ## Removal -/

def erase (s : OrdSet α) (a : α) : OrdSet α :=
  ⟨s.elems.erase a, s.sorted.sublist List.erase_sublist⟩

@[simp] theorem mem_erase {a x : α} {s : OrdSet α} : x ∈ s.erase a ↔ x ∈ s ∧ x ≠ a := by
  have hnodup : s.elems.Nodup := s.sorted.imp ne_of_lt
  rw [mem_def, erase, hnodup.mem_erase_iff]
  exact and_comm

theorem count_eq_one {a : α} {s : OrdSet α} (h : a ∈ s) : s.count a = 1 := if_pos h

theorem size_erase {a : α} {s : OrdSet α} (h : a ∈ s) : (s.erase a).size + 1 = s.size := by
  have hpos : 0 < s.elems.length := List.length_pos_of_mem h
  rw [size, erase, List.length_erase_of_mem h, size]
  omega

/-! ## The elements in front of a bound -/

/-- The elements less than `x`, in order: from `begin()` to `lower_bound(x)`. -/
def below (s : OrdSet α) (x : α) : List α := s.elems.filter (· < x)

/-- What is left when the elements in front of `lower_bound(x)` are erased. -/
def fromLowerBound (s : OrdSet α) (x : α) : OrdSet α :=
  ⟨s.elems.filter (x ≤ ·), s.sorted.filter _⟩

@[simp] theorem mem_below {a x : α} {s : OrdSet α} : a ∈ s.below x ↔ a ∈ s ∧ a < x := by
  rw [below, List.mem_filter, decide_eq_true_iff]
  exact Iff.rfl

@[simp] theorem mem_fromLowerBound {a x : α} {s : OrdSet α} :
    a ∈ s.fromLowerBound x ↔ a ∈ s ∧ x ≤ a := by
  rw [mem_def, fromLowerBound, List.mem_filter, decide_eq_true_iff]
  exact Iff.rfl

theorem sorted_below (s : OrdSet α) (x : α) : (s.below x).Pairwise (· < ·) :=
  s.sorted.filter _

theorem size_fromLowerBound (s : OrdSet α) (x : α) :
    (s.fromLowerBound x).size + (s.below x).length = s.size := by
  have hsplit := List.length_eq_length_filter_add (l := s.elems) (fun a => decide (a < x))
  have hnot : s.elems.filter (fun a => !decide (a < x)) = s.elems.filter (x ≤ ·) := by
    apply List.filter_congr
    intro a _
    simp [← not_lt]
  rw [hnot] at hsplit
  rw [size, size, below, hsplit]
  exact Nat.add_comm _ _

/-! ## The first element -/

theorem first_eq_none {s : OrdSet α} : s.first = none ↔ ∀ a, a ∉ s := by
  rw [first, List.head?_eq_none_iff, List.eq_nil_iff_forall_not_mem]
  exact Iff.rfl

theorem first_mem {a : α} {s : OrdSet α} (h : s.first = some a) : a ∈ s :=
  List.mem_of_mem_head? h

theorem first_le {a b : α} {s : OrdSet α} (h : s.first = some a) (hb : b ∈ s) : a ≤ b := by
  obtain ⟨l, hl⟩ := List.head?_eq_some_iff.mp h
  have hs := s.sorted
  rw [hl, List.pairwise_cons] at hs
  rw [mem_def, hl, List.mem_cons] at hb
  rcases hb with rfl | hb
  · exact le_refl b
  · exact le_of_lt (hs.1 b hb)

end OrdSet

end Zing.Lib
