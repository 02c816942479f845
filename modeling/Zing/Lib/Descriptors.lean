import Mathlib.Logic.Function.Basic

set_option autoImplicit false

/-! # Descriptors

The open descriptors of a process. A descriptor is a small number that the kernel hands out
again once it was closed; what stays the same is the open file behind it, which gets a number of
its own here: `Descriptors.lookup d fd` is the number of the call that handed `fd` out. A call
that fails returns `-1`, which is no descriptor, and closing a descriptor that is not open
changes nothing.
-/

namespace Zing.Lib

/-- The files behind the open descriptors, numbered in the order they were handed out. -/
structure Descriptors where
  file : Nat → Option Nat
  handedOut : Nat

namespace Descriptors

/-- The file behind the result of a call. -/
def lookup (d : Descriptors) (fd : Int) : Option Nat :=
  if 0 ≤ fd then d.file fd.toNat else none

/-- A call hands out `fd`, which must not be open. -/
def handOut (d : Descriptors) (fd : Nat) : Option Descriptors :=
  if d.file fd = none then
    some { file := Function.update d.file fd (some d.handedOut), handedOut := d.handedOut + 1 }
  else none

def close (d : Descriptors) (fd : Int) : Descriptors :=
  { d with file := fun n => if (n : Int) = fd then none else d.file n }

/-- Files have numbers that were given out. -/
def WF (d : Descriptors) : Prop := ∀ fd k, d.lookup fd = some k → k < d.handedOut

variable {d d' : Descriptors} {fd : Int} {n k : Nat}

@[simp] theorem lookup_failed : d.lookup (-1) = none := rfl

@[simp] theorem lookup_natCast : d.lookup n = d.file n := by
  rw [lookup, if_pos (Int.natCast_nonneg n), Int.toNat_natCast]

/-! ## Handing out -/

theorem handOut_eq_some : d.handOut n = some d' ↔ d.file n = none ∧
    d' = { file := Function.update d.file n (some d.handedOut),
           handedOut := d.handedOut + 1 } := by
  rw [handOut]
  split
  · case isTrue h => simp [h, eq_comm]
  · case isFalse h => simp [h]

theorem handedOut_handOut (h : d.handOut n = some d') : d'.handedOut = d.handedOut + 1 := by
  rw [(handOut_eq_some.mp h).2]

theorem lookup_handOut_self (h : d.handOut n = some d') : d'.lookup n = some d.handedOut := by
  rw [(handOut_eq_some.mp h).2, lookup_natCast]
  exact Function.update_self ..

theorem lookup_handOut_of_ne (h : d.handOut n = some d') (hne : fd ≠ n) :
    d'.lookup fd = d.lookup fd := by
  rw [(handOut_eq_some.mp h).2, lookup, lookup]
  by_cases hpos : 0 ≤ fd
  · have hne' : fd.toNat ≠ n := by omega
    rw [if_pos hpos, if_pos hpos]
    exact Function.update_of_ne hne' ..
  · rw [if_neg hpos, if_neg hpos]

/-- A descriptor that is open is not the one that is handed out. -/
theorem ne_of_handOut (h : d.handOut n = some d') (hopen : d.lookup fd = some k) : fd ≠ n := by
  rintro rfl
  rw [lookup_natCast, (handOut_eq_some.mp h).1] at hopen
  cases hopen

theorem WF.handOut (hwf : d.WF) (h : d.handOut n = some d') : d'.WF := by
  intro fd k hk
  rw [handedOut_handOut h]
  by_cases hn : fd = n
  · rw [hn, lookup_handOut_self h, Option.some.injEq] at hk
    omega
  · rw [lookup_handOut_of_ne h hn] at hk
    have := hwf fd k hk
    omega

/-! ## Closing -/

@[simp] theorem handedOut_close : (d.close fd).handedOut = d.handedOut := rfl

theorem lookup_close {fd' : Int} :
    (d.close fd).lookup fd' = if fd' = fd then none else d.lookup fd' := by
  rw [lookup, lookup, close]
  by_cases hpos : 0 ≤ fd'
  · rw [if_pos hpos, if_pos hpos]
    simp only [Int.toNat_of_nonneg hpos]
  · rw [if_neg hpos, if_neg hpos, ite_self]

theorem WF.close (hwf : d.WF) (fd : Int) : (d.close fd).WF := by
  intro fd' k hk
  rw [lookup_close] at hk
  split at hk
  · cases hk
  · exact hwf fd' k hk

end Descriptors

end Zing.Lib
