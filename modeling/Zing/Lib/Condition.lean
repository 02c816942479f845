import Mathlib.Data.Finset.Card
import Mathlib.Order.Disjoint

set_option autoImplicit false

/-! # Condition variables

The threads in `wait()` of a condition variable, by how far each has come: blocked, picked by
a notification, or woken without one. The last two have left the wait and come back when they
get the lock, and other threads may have it before them.

A loop `while (!condition) wait()` with one notification for each unit of what is waited for
loses no wake-up if the notified threads that have not come back are as many as the units, or
more, as long as a thread is blocked: `Covers c n` for `n` units. The lemmas say how each
operation changes what is covered.
-/

namespace Zing.Lib

/-- The threads that wait for a condition variable. -/
structure Condition (T : Type) where
  blocked : Finset T
  /-- Picked by a notification, and not back yet. -/
  notified : Finset T
  /-- Woken without a notification, and not back yet. -/
  woken : Finset T
  notified_disjoint : Disjoint blocked notified
  woken_disjoint : Disjoint blocked woken

namespace Condition

variable {T : Type}

/-- Nobody waits. -/
def idle : Condition T where
  blocked := ∅
  notified := ∅
  woken := ∅
  notified_disjoint := Finset.disjoint_empty_left _
  woken_disjoint := Finset.disjoint_empty_left _

/-- While a thread is blocked, at least `n` others have been notified and are not back. -/
def Covers (c : Condition T) (n : ℕ) : Prop := c.blocked.Nonempty → n ≤ c.notified.card

variable [DecidableEq T]

/-- The thread is in `wait()`. -/
def Waiting (c : Condition T) (t : T) : Prop := t ∈ c.blocked ∨ t ∈ c.notified ∨ t ∈ c.woken

/-- The thread has left the wait, and `wait()` returns when it gets the lock. -/
def CanResume (c : Condition T) (t : T) : Prop := t ∈ c.notified ∨ t ∈ c.woken

/-- A notification picks one of the blocked threads, if there is one. -/
def CanNotify (c : Condition T) : Option T → Prop
  | none => c.blocked = ∅
  | some t => t ∈ c.blocked

instance (c : Condition T) (t : T) : Decidable (c.Waiting t) :=
  inferInstanceAs (Decidable (_ ∨ _ ∨ _))

instance (c : Condition T) (t : T) : Decidable (c.CanResume t) :=
  inferInstanceAs (Decidable (_ ∨ _))

instance (c : Condition T) : (choice : Option T) → Decidable (c.CanNotify choice)
  | none => inferInstanceAs (Decidable (c.blocked = ∅))
  | some t => inferInstanceAs (Decidable (t ∈ c.blocked))

theorem disjoint_insert_erase {x y : Finset T} (h : Disjoint x y) (t : T) :
    Disjoint (insert t x) (y.erase t) := by
  rw [Finset.disjoint_insert_left]
  exact ⟨Finset.notMem_erase t _, h.mono_right (Finset.erase_subset t _)⟩

/-- `t` blocks. -/
def wait (c : Condition T) (t : T) : Condition T where
  blocked := insert t c.blocked
  notified := c.notified.erase t
  woken := c.woken.erase t
  notified_disjoint := disjoint_insert_erase c.notified_disjoint t
  woken_disjoint := disjoint_insert_erase c.woken_disjoint t

/-- Notify the thread picked. -/
def notify (c : Condition T) : Option T → Condition T
  | none => c
  | some t =>
      { blocked := c.blocked.erase t
        notified := insert t c.notified
        woken := c.woken
        notified_disjoint := (disjoint_insert_erase c.notified_disjoint.symm t).symm
        woken_disjoint := c.woken_disjoint.mono_left (Finset.erase_subset t _) }

def notifyAll (c : Condition T) : Condition T where
  blocked := ∅
  notified := c.blocked ∪ c.notified
  woken := c.woken
  notified_disjoint := Finset.disjoint_empty_left _
  woken_disjoint := Finset.disjoint_empty_left _

/-- `t` wakes up without a notification. -/
def wake (c : Condition T) (t : T) : Condition T where
  blocked := c.blocked.erase t
  notified := c.notified
  woken := insert t c.woken
  notified_disjoint := c.notified_disjoint.mono_left (Finset.erase_subset t _)
  woken_disjoint := (disjoint_insert_erase c.woken_disjoint.symm t).symm

/-- `t` has the lock again, and `wait()` returns. -/
def resume (c : Condition T) (t : T) : Condition T where
  blocked := c.blocked
  notified := c.notified.erase t
  woken := c.woken.erase t
  notified_disjoint := c.notified_disjoint.mono_right (Finset.erase_subset t _)
  woken_disjoint := c.woken_disjoint.mono_right (Finset.erase_subset t _)

variable {c : Condition T} {n m : ℕ} {t u : T} {choice : Option T}

/-! ## Who waits -/

omit [DecidableEq T] in
theorem not_waiting_idle : ¬ (idle : Condition T).Waiting t := by
  simp [Waiting, idle]

theorem waiting_wait : (c.wait t).Waiting u ↔ u = t ∨ c.Waiting u := by
  simp only [Waiting, wait, Finset.mem_insert, Finset.mem_erase]
  tauto

theorem waiting_notify (hc : c.CanNotify choice) :
    (c.notify choice).Waiting u ↔ c.Waiting u := by
  cases choice with
  | none => rfl
  | some t =>
      have ht : t ∈ c.blocked := hc
      simp only [Waiting, notify, Finset.mem_insert, Finset.mem_erase]
      by_cases hu : u = t
      · simp [hu, ht]
      · simp [hu]

theorem waiting_notifyAll : c.notifyAll.Waiting u ↔ c.Waiting u := by
  simp [Waiting, notifyAll, or_assoc]

theorem waiting_wake (ht : t ∈ c.blocked) : (c.wake t).Waiting u ↔ c.Waiting u := by
  simp only [Waiting, wake, Finset.mem_insert, Finset.mem_erase]
  by_cases hu : u = t
  · simp [hu, ht]
  · simp [hu]

theorem waiting_of_resume (h : (c.resume t).Waiting u) : c.Waiting u := by
  rcases h with h | h | h
  · exact Or.inl h
  · exact Or.inr (Or.inl (Finset.mem_of_mem_erase h))
  · exact Or.inr (Or.inr (Finset.mem_of_mem_erase h))

theorem not_waiting_resume (h : c.CanResume t) : ¬ (c.resume t).Waiting t := by
  have hblocked : t ∉ c.blocked := by
    intro hb
    rcases h with h | h
    · exact Finset.disjoint_left.mp c.notified_disjoint hb h
    · exact Finset.disjoint_left.mp c.woken_disjoint hb h
  rintro (hw | hw | hw)
  · exact hblocked hw
  · exact Finset.notMem_erase t _ hw
  · exact Finset.notMem_erase t _ hw

omit [DecidableEq T] in
theorem waiting_of_canResume (h : c.CanResume t) : c.Waiting t := Or.inr h

/-! ## What is covered -/

omit [DecidableEq T] in
theorem covers_idle : (idle : Condition T).Covers n := by
  intro h
  exact absurd h Finset.not_nonempty_empty

omit [DecidableEq T] in
/-- With nothing to wait for, no wake-up is owed. -/
theorem covers_zero : c.Covers 0 := fun _ => Nat.zero_le _

omit [DecidableEq T] in
theorem covers_of_blocked (h : c.blocked = ∅) : c.Covers n := by
  intro hne
  rw [h] at hne
  exact absurd hne Finset.not_nonempty_empty

omit [DecidableEq T] in
/-- Another thread may use up a unit before a notified one is back. -/
theorem Covers.mono (h : c.Covers n) (hm : m ≤ n) : c.Covers m := fun hb => hm.trans (h hb)

theorem blocked_notifyAll : c.notifyAll.blocked = ∅ := rfl

/-- A unit that comes with a notification is covered. -/
theorem Covers.notify (h : c.Covers n) (hc : c.CanNotify choice) :
    (c.notify choice).Covers (n + 1) := by
  cases choice with
  | none => exact covers_of_blocked hc
  | some t =>
      have ht : t ∈ c.blocked := hc
      intro _
      have hfresh : t ∉ c.notified := Finset.disjoint_left.mp c.notified_disjoint ht
      calc n + 1 ≤ c.notified.card + 1 := Nat.succ_le_succ (h ⟨t, ht⟩)
        _ = (insert t c.notified).card := (Finset.card_insert_of_notMem hfresh).symm

/-- A thread that comes back accounts for one unit. -/
theorem Covers.resume (h : c.Covers n) : (c.resume t).Covers (n - 1) := by
  intro hb
  calc n - 1 ≤ c.notified.card - 1 := Nat.sub_le_sub_right (h hb) 1
    _ ≤ (c.notified.erase t).card := Finset.pred_card_le_card_erase

theorem Covers.wake (h : c.Covers n) : (c.wake t).Covers n := by
  intro hb
  exact h (hb.mono (Finset.erase_subset t c.blocked))

omit [DecidableEq T] in
/-- With a unit there and a thread blocked, some notified thread is on its way. -/
theorem Covers.exists_notified (h : c.Covers n) (hn : 0 < n) (hb : t ∈ c.blocked) :
    ∃ u, u ∈ c.notified := by
  have hcard : 0 < c.notified.card := hn.trans_le (h ⟨t, hb⟩)
  exact Finset.card_pos.mp hcard

end Condition

end Zing.Lib
