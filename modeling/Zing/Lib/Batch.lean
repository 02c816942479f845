import Mathlib.Data.List.Basic
import Mathlib.Data.Set.Card

set_option autoImplicit false

/-! # A queue that is run in batches

Any thread appends to the queue, and one thread takes all of it at once, as a batch, and runs
the items of the batch one after the other. The items that have run stay until the batch is
over, and with them what they own.

Some items own an object, and some use it without owning it. `Batches.Kept` is the condition
under which no item is left to use an object without owner, whatever the queue goes on to do.

`Busy` counts the threads that are in a call.
-/

namespace Zing.Lib

/-- The items of the batch that have run, those that have not, and the queue. -/
structure Batches (J : Type) where
  ran : List J
  rest : List J
  pending : List J

namespace Batches

variable {J : Type}

def items (b : Batches J) : List J := b.ran ++ b.rest ++ b.pending

def push (b : Batches J) (js : List J) : Batches J := { b with pending := b.pending ++ js }

/-- The queue becomes the batch. -/
def swap (b : Batches J) : Batches J := { b with rest := b.pending, pending := [] }

def next (b : Batches J) (j : J) (rest : List J) : Batches J :=
  { b with ran := b.ran ++ [j], rest := rest }

/-- The batch is destroyed. -/
def done (b : Batches J) : Batches J := { b with ran := [] }

/-- An item that uses the object has an owner beside it: one that is outside the queue and
hands over to the queue (`up`), or one that goes no earlier than the item. -/
structure Kept (uses owns : J → Bool) (up : Prop) (b : Batches J) : Prop where
  pending : (∃ j ∈ b.pending, uses j = true) → up ∨ ∃ j ∈ b.pending, owns j = true
  rest : (∃ j ∈ b.rest, uses j = true) → up ∨ ∃ j ∈ b.items, owns j = true

variable {uses owns : J → Bool} {up up' : Prop} {b : Batches J} {js rest : List J} {j : J}

theorem mem_items : j ∈ b.items ↔ (j ∈ b.ran ∨ j ∈ b.rest) ∨ j ∈ b.pending := by
  rw [items, List.mem_append, List.mem_append]

theorem mem_push_pending : j ∈ (b.push js).pending ↔ j ∈ b.pending ∨ j ∈ js :=
  List.mem_append

theorem mem_push_items : j ∈ (b.push js).items ↔ j ∈ b.items ∨ j ∈ js := by
  rw [mem_items, mem_items, mem_push_pending, ← or_assoc]
  rfl

theorem mem_next_items (hb : b.rest = j :: rest) {i : J} :
    i ∈ (b.next j rest).items ↔ i ∈ b.items := by
  rw [items, items, next, hb, List.append_assoc b.ran, List.singleton_append]

/-- Nothing uses the object without an owner. -/
theorem Kept.owned (h : Kept uses owns up b) (hu : ∃ j ∈ b.rest ++ b.pending, uses j = true) :
    up ∨ ∃ j ∈ b.items, owns j = true := by
  obtain ⟨j, hj, huses⟩ := hu
  rcases List.mem_append.mp hj with hj | hj
  · exact h.rest ⟨j, hj, huses⟩
  · apply (h.pending ⟨j, hj, huses⟩).imp_right
    rintro ⟨i, hi, howns⟩
    exact ⟨i, mem_items.mpr (Or.inr hi), howns⟩

theorem Kept.imp (h : Kept uses owns up b) (hup : up → up') : Kept uses owns up' b where
  pending hu := (h.pending hu).imp_left hup
  rest hu := (h.rest hu).imp_left hup

/-- Owners may hand over to an item that they append. -/
theorem Kept.push (h : Kept uses owns up b) (hjs : ∀ j ∈ js, uses j = false)
    (hup : up → up' ∨ ∃ j ∈ js, owns j = true) : Kept uses owns up' (b.push js) where
  pending := by
    rintro ⟨j, hj, huses⟩
    have hold : j ∈ b.pending := by
      rcases mem_push_pending.mp hj with hj | hj
      · exact hj
      · rw [hjs j hj] at huses
        cases huses
    rcases h.pending ⟨j, hold, huses⟩ with hu | ⟨i, hi, howns⟩
    · apply (hup hu).imp_right
      rintro ⟨i, hi, howns⟩
      exact ⟨i, mem_push_pending.mpr (Or.inr hi), howns⟩
    · exact Or.inr ⟨i, mem_push_pending.mpr (Or.inl hi), howns⟩
  rest := by
    intro hu
    rcases h.rest hu with hu | ⟨i, hi, howns⟩
    · apply (hup hu).imp_right
      rintro ⟨i, hi, howns⟩
      exact ⟨i, mem_push_items.mpr (Or.inr hi), howns⟩
    · exact Or.inr ⟨i, mem_push_items.mpr (Or.inl hi), howns⟩

/-- The owners in the queue are in the batch as long as the items that follow them. -/
theorem Kept.swap (h : Kept uses owns up b) : Kept uses owns up b.swap where
  pending := by
    rintro ⟨j, hj, -⟩
    cases hj
  rest := by
    intro hu
    apply (h.pending hu).imp_right
    rintro ⟨i, hi, howns⟩
    exact ⟨i, mem_items.mpr (Or.inl (Or.inr hi)), howns⟩

/-- An item that has run still owns what it owns. -/
theorem Kept.next (h : Kept uses owns up b) (hb : b.rest = j :: rest) :
    Kept uses owns up (b.next j rest) where
  pending := h.pending
  rest := by
    rintro ⟨i, hi, huses⟩
    have hold : i ∈ b.rest := by
      rw [hb]
      exact List.mem_cons_of_mem j hi
    apply (h.rest ⟨i, hold, huses⟩).imp_right
    rintro ⟨k, hk, howns⟩
    exact ⟨k, (mem_next_items hb).mpr hk, howns⟩

/-- The owners of the batch are gone, and so is what they were needed for. -/
theorem Kept.done (h : Kept uses owns up b) (hb : b.rest = []) :
    Kept uses owns up b.done where
  pending := h.pending
  rest := by
    rintro ⟨i, hi, -⟩
    rw [Batches.done, hb] at hi
    cases hi

end Batches

/-! ## Counting threads -/

section busy

variable {T β : Type} {f : T → β} {idle v : β} {n : ℕ} {t : T}

/-- `n` threads are in a call. -/
def Busy (f : T → β) (idle : β) (n : ℕ) : Prop := {t | f t ≠ idle}.encard = n

theorem Busy.none (h : ∀ t, f t = idle) : Busy f idle 0 := by
  have hempty : {t | f t ≠ idle} = ∅ := by
    ext t
    simp [h t]
  rw [Busy, hempty, Set.encard_empty, Nat.cast_zero]

theorem Busy.pos (h : Busy f idle n) (ht : f t ≠ idle) : 0 < n := by
  rw [Nat.pos_iff_ne_zero]
  rintro rfl
  rw [Busy, Nat.cast_zero, Set.encard_eq_zero] at h
  exact Set.notMem_empty t (h ▸ ht)

variable [DecidableEq T]

/-- A thread goes on in its call. -/
theorem Busy.goOn (h : Busy f idle n) (ht : f t ≠ idle) (hv : v ≠ idle) :
    Busy (Function.update f t v) idle n := by
  have hsame : {u | Function.update f t v u ≠ idle} = {u | f u ≠ idle} := by
    ext u
    by_cases hu : u = t
    · subst hu
      simp [hv, ht]
    · simp [Function.update_of_ne hu]
  rw [Busy, hsame]
  exact h

theorem Busy.begin (h : Busy f idle n) (ht : f t = idle) (hv : v ≠ idle) :
    Busy (Function.update f t v) idle (n + 1) := by
  have hinsert : {u | Function.update f t v u ≠ idle} = insert t {u | f u ≠ idle} := by
    ext u
    by_cases hu : u = t
    · subst hu
      simp [hv]
    · simp [hu]
  have hnot : t ∉ {u | f u ≠ idle} := fun hmem => hmem ht
  rw [Busy, hinsert, Set.encard_insert_of_notMem hnot, h]
  rfl

theorem Busy.finish (h : Busy f idle n) (ht : f t ≠ idle) :
    Busy (Function.update f t idle) idle (n - 1) := by
  have herase : {u | Function.update f t idle u ≠ idle} = {u | f u ≠ idle} \ {t} := by
    ext u
    by_cases hu : u = t
    · subst hu
      simp
    · simp [hu]
  rw [Busy, herase, Set.encard_sdiff_singleton_of_mem (show t ∈ {u | f u ≠ idle} from ht), h]
  rfl

end busy

end Zing.Lib
