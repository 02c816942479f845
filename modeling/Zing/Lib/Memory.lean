import Zing.Lib.Assert
import Zing.Lib.Segment

set_option autoImplicit false

/-! # Blocks of memory

A block has a fixed number of cells, and an access that leaves its block fails.
`Memory.write m p xs` writes the cells from position `p` on. A write that begins where the one
before it ended is a part of one longer write (`write_append`), and what is written over is
forgotten (`write_over`).
-/

namespace Zing.Lib

/-- An access outside of its block, or a pointer that leaves it. -/
inductive OutOfBounds
  | read
  | write
  | pointer
  deriving DecidableEq, Repr

structure Memory (α : Type) (n : Nat) where
  cells : List α
  length_cells : cells.length = n

namespace Memory

variable {α β : Type} {n : Nat}

/-- `table[i]` -/
def entry (table : List α) (i : Int) : Except OutOfBounds α :=
  if h : 0 ≤ i ∧ i.toNat < table.length then .ok (table.get ⟨i.toNat, h.2⟩) else .error .read

/-- The first `len` elements behind a pointer. -/
def read (ptr : List α) (len : Nat) : Except OutOfBounds (List α) :=
  if len ≤ ptr.length then .ok (ptr.take len) else .error .read

def write (m : Memory α n) (p : Nat) (xs : List α) : Except OutOfBounds (Memory α n) :=
  if h : p + xs.length ≤ n then
    .ok ⟨overwrite m.cells p xs, by
      rw [length_overwrite _ _ _ (by rw [m.length_cells]; exact h), m.length_cells]⟩
  else .error .write

/-- `std::reverse(first, last)` -/
def reverse (m : Memory α n) (first last : Nat) : Except OutOfBounds (Memory α n) :=
  m.write first (segment m.cells first last).reverse

variable {m m' : Memory α n} {p : Nat} {xs ys zs : List α}

theorem ext_cells (h : m.cells = m'.cells) : m = m' := by
  cases m
  cases m'
  cases h
  rfl

theorem read_ok {len : Nat} (h : len ≤ xs.length) : read xs len = .ok (xs.take len) := if_pos h

/-! ## Writing -/

theorem write_eq_ok : m.write p xs = .ok m' ↔
    p + xs.length ≤ n ∧ m'.cells = overwrite m.cells p xs := by
  rw [write]
  split
  · case isTrue h =>
      rw [Except.ok.injEq]
      constructor
      · rintro rfl
        exact ⟨h, rfl⟩
      · rintro ⟨-, hcells⟩
        exact ext_cells hcells.symm
  · case isFalse h => simp [h]

theorem exists_write (m : Memory α n) (p : Nat) (xs : List α) (h : p + xs.length ≤ n) :
    ∃ m', m.write p xs = .ok m' := by
  rw [write, dif_pos h]
  exact ⟨_, rfl⟩

theorem write_error (h : ¬ p + xs.length ≤ n) : m.write p xs = .error .write := dif_neg h

/-- What stands before the end of a write. -/
theorem take_write (h : m.write p xs = .ok m') :
    m'.cells.take (p + xs.length) = m.cells.take p ++ xs := by
  obtain ⟨hfits, hcells⟩ := write_eq_ok.mp h
  have hp : (m.cells.take p).length = p := by
    rw [List.length_take, m.length_cells]
    omega
  rw [hcells, overwrite, ← List.append_assoc, List.take_left']
  rw [List.length_append, hp]

/-- A write leaves what stands before it. -/
theorem take_write_of_le {k : Nat} (h : m.write p xs = .ok m') (hk : k ≤ p) :
    m'.cells.take k = m.cells.take k := by
  obtain ⟨hfits, -⟩ := write_eq_ok.mp h
  have hp : k ≤ (m.cells.take p).length := by
    rw [List.length_take, m.length_cells]
    omega
  calc m'.cells.take k
      = (m'.cells.take (p + xs.length)).take k := by
        rw [List.take_take, Nat.min_eq_left (by omega)]
    _ = (m.cells.take p ++ xs).take k := by rw [take_write h]
    _ = (m.cells.take p).take k := List.take_append_of_le_length hp
    _ = m.cells.take k := by rw [List.take_take, Nat.min_eq_left hk]

theorem segment_write (h : m.write p xs = .ok m') :
    segment m'.cells p (p + xs.length) = xs := by
  obtain ⟨hfits, hcells⟩ := write_eq_ok.mp h
  rw [hcells, segment_overwrite_self]
  rw [m.length_cells]
  omega

/-- Two writes in a row are one. -/
theorem write_append (m : Memory α n) (p : Nat) (xs ys : List α) :
    (m.write p xs >>= fun m' => m'.write (p + xs.length) ys) = m.write p (xs ++ ys) := by
  by_cases h : p + xs.length ≤ n
  · obtain ⟨m', hm'⟩ := exists_write m p xs h
    rw [hm', ok_bind]
    by_cases hall : p + xs.length + ys.length ≤ n
    · obtain ⟨m'', hm''⟩ := exists_write m' _ ys hall
      rw [hm'']
      symm
      rw [write_eq_ok]
      have hcells := (write_eq_ok.mp hm'').2
      refine ⟨by rw [List.length_append]; omega, ?_⟩
      rw [hcells, overwrite, take_write hm', (write_eq_ok.mp hm').2, overwrite, overwrite]
      have hp : (m.cells.take p).length = p := by
        rw [List.length_take, m.length_cells]
        omega
      have hdrop : List.drop (p + xs.length + ys.length)
          (m.cells.take p ++ (xs ++ m.cells.drop (p + xs.length)))
            = m.cells.drop (p + (xs ++ ys).length) := by
        rw [← List.append_assoc, List.drop_append, List.drop_of_length_le (by simp; omega),
          List.nil_append, List.drop_drop, List.length_append, List.length_append, hp]
        congr 1
        omega
      rw [hdrop, List.append_assoc, List.append_assoc]
    · rw [write_error hall, write_error]
      rw [List.length_append]
      omega
  · rw [write_error h, error_bind, write_error]
    rw [List.length_append]
    omega

/-- A write that is written over. -/
theorem write_over (m : Memory α n) (p : Nat) (xs ys zs : List α) (h : ys.length = xs.length) :
    (m.write p (xs ++ zs) >>= fun m' => m'.write p ys) = m.write p (ys ++ zs) := by
  by_cases hfits : p + (xs ++ zs).length ≤ n
  · obtain ⟨m', hm'⟩ := exists_write m p _ hfits
    rw [List.length_append] at hfits
    obtain ⟨m'', hm''⟩ := exists_write m' p ys (by omega)
    rw [hm', ok_bind, hm'']
    symm
    rw [write_eq_ok]
    refine ⟨by rw [List.length_append]; omega, ?_⟩
    have htake := take_write_of_le hm' (Nat.le_refl p)
    have hlen : (m.cells.take p).length = p := by
      rw [List.length_take, m.length_cells]
      omega
    have hdrop : m'.cells.drop (p + ys.length)
        = zs ++ m.cells.drop (p + (ys ++ zs).length) := by
      rw [(write_eq_ok.mp hm').2, overwrite, List.append_assoc, ← List.append_assoc,
        List.drop_left' (by rw [List.length_append, hlen, h]), List.length_append,
        List.length_append, h]
    rw [(write_eq_ok.mp hm'').2, overwrite, htake, hdrop, overwrite, List.append_assoc]
  · rw [write_error hfits, error_bind, write_error]
    rw [List.length_append] at hfits ⊢
    omega

end Memory

end Zing.Lib
