import Mathlib.Algebra.Group.Nat.Defs
import Mathlib.Data.Prod.Lex
import Mathlib.Order.Lattice
import Mathlib.Logic.Function.Basic
import Zing.Lib.Assert

set_option autoImplicit false

/-! # Timers

`Timestamp`, `Timer` and `TimerId`, and the memory that `Timer` objects are allocated in.

An address may be used again as soon as the object there is deleted. What identifies a timer
over a whole run is its `TimerId`, the address together with the sequence number, and
`Memory.Live m id` says that the object is still there. `Memory.Later` is the order in which
memory evolves as long as nothing is allocated: objects only go, and those that go are
recorded in `deleted`.

Sequence numbers and points in time are `int64_t` in the source. They are unbounded here: the
counter starts at zero and is only incremented, and sums of points in time and intervals are
taken to fit.
-/

namespace Zing.Net

open Zing.Lib

/-! ## Points in time -/

/-- `microSecondsSinceEpoch_`. -/
abbrev Timestamp := Int

namespace Timestamp

def kMicroSecondsPerSecond : Int := 1000 * 1000

def valid (t : Timestamp) : Bool := decide (t > 0)

def invalid : Timestamp := 0

end Timestamp

/-- An interval in seconds, a `double`: whether it is greater than `0.0`, and the
`int64_t` that `interval * kMicroSecondsPerSecond` is cast to. -/
structure Interval where
  positive : Bool
  micros : Int
  nonneg : positive = true → 0 ≤ micros

theorem Interval.nonneg_zero : false = true → (0 : Int) ≤ 0 := by
  decide

def addTime (timestamp : Timestamp) (seconds : Interval) : Timestamp :=
  timestamp + seconds.micros

/-! ## Timer objects -/

/-- A `Timer`, less its callback: which timers a callback adds and cancels is left to the run. -/
structure Timer where
  expiration : Timestamp
  interval : Interval
  sequence : Nat

namespace Timer

/-- `repeat_`, which the constructor sets to `interval > 0.0`. -/
def repeats (t : Timer) : Bool := t.interval.positive

def restart (t : Timer) (now : Timestamp) : Timer :=
  if t.repeats then { t with expiration := addTime now t.interval }
  else { t with expiration := Timestamp.invalid }

@[simp] theorem restart_sequence (t : Timer) (now : Timestamp) :
    (t.restart now).sequence = t.sequence := by
  unfold restart
  split <;> rfl

/-- A repeating timer is put no earlier than the time it is restarted at. -/
theorem le_restart_expiration {t : Timer} (h : t.repeats = true) (now : Timestamp) :
    now ≤ (t.restart now).expiration := by
  rw [restart, if_pos h]
  exact Int.le_add_of_nonneg_right (t.interval.nonneg h)

end Timer

/-- A `Timer *`. -/
abbrev Addr := Nat

def UINTPTR_MAX : Addr := 2 ^ 64 - 1

/-- A `TimerId`, and also an `ActiveTimer`, the pair of the same two values. -/
structure TimerId where
  timer : Addr
  sequence : Nat
  deriving DecidableEq, Repr

/-- An `Entry` of `timers_`, ordered by time and then by address. -/
structure Entry where
  when : Timestamp
  timer : Addr
  deriving DecidableEq, Repr

instance : LinearOrder TimerId :=
  LinearOrder.lift' (fun id => toLex (id.timer, id.sequence)) (by
    rintro ⟨p, m⟩ ⟨q, n⟩ h
    simpa using h)

instance : LinearOrder Entry :=
  LinearOrder.lift' (fun e => toLex (e.when, e.timer)) (by
    rintro ⟨w, p⟩ ⟨v, q⟩ h
    simpa using h)

theorem Entry.lt_iff {e f : Entry} :
    e < f ↔ e.when < f.when ∨ e.when = f.when ∧ e.timer < f.timer :=
  Prod.Lex.toLex_lt_toLex

theorem Entry.le_when {e f : Entry} (h : e ≤ f) : e.when ≤ f.when := by
  rcases h.lt_or_eq with h | rfl
  · rcases Entry.lt_iff.mp h with h | h
    · exact h.le
    · exact h.1.le
  · exact le_refl _

/-! ## Memory -/

/-- The live `Timer` objects, the counter `s_numCreated_`, and a record of the objects that
were deleted. -/
structure Memory where
  live : Addr → Option Timer
  numCreated : Nat
  deleted : List TimerId

namespace Memory

/-- No object yet. -/
def start : Memory := { live := fun _ => none, numCreated := 0, deleted := [] }

/-- The timer `id` has not been deleted. -/
def Live (m : Memory) (id : TimerId) : Prop :=
  ∃ t, m.live id.timer = some t ∧ t.sequence = id.sequence

/-- There is one object at an address. -/
theorem Live.unique {m : Memory} {id id' : TimerId} (h : m.Live id) (h' : m.Live id')
    (heq : id.timer = id'.timer) : id = id' := by
  obtain ⟨t, ht, hs⟩ := h
  obtain ⟨u, hu, hs'⟩ := h'
  rw [heq, hu, Option.some.injEq] at ht
  obtain ⟨p, n⟩ := id
  obtain ⟨p', n'⟩ := id'
  simp_all

/-- What `new` may return. -/
def Available (m : Memory) (p : Addr) : Prop := 0 < p ∧ p < UINTPTR_MAX ∧ m.live p = none

instance (m : Memory) (p : Addr) : Decidable (m.Available p) := by
  unfold Available
  exact inferInstanceAs (Decidable (_ ∧ _ ∧ _))

/-- `new Timer(cb, when, interval)` at the address `p`. -/
def new (m : Memory) (p : Addr) (when : Timestamp) (interval : Interval) : Memory :=
  { m with
    live := Function.update m.live p
      (some { expiration := when, interval := interval, sequence := m.numCreated + 1 })
    numCreated := m.numCreated + 1 }

/-- The object at `p` with its fields changed. -/
def store (m : Memory) (p : Addr) (t : Timer) : Memory :=
  { m with live := Function.update m.live p (some t) }

/-- The memory without the object `t` at `p`. -/
def remove (m : Memory) (p : Addr) (t : Timer) : Memory :=
  { m with
    live := Function.update m.live p none
    deleted := m.deleted ++ [⟨p, t.sequence⟩] }

/-- Memory as the program makes it: sequence numbers come from the counter, and what was
deleted once is never live again nor deleted a second time. -/
structure WF (m : Memory) : Prop where
  addr_pos : ∀ p t, m.live p = some t → 0 < p
  addr_lt : ∀ p t, m.live p = some t → p < UINTPTR_MAX
  sequence_le : ∀ p t, m.live p = some t → t.sequence ≤ m.numCreated
  deleted_le : ∀ id ∈ m.deleted, id.sequence ≤ m.numCreated
  deleted_not_live : ∀ id ∈ m.deleted, ¬ m.Live id
  deleted_nodup : m.deleted.Nodup

/-- `m'` comes after `m`, and nothing was allocated in between. -/
structure Later (m m' : Memory) : Prop where
  numCreated_eq : m'.numCreated = m.numCreated
  live_before : ∀ id, m'.Live id → m.Live id
  live_or_deleted : ∀ id, m.Live id → m'.Live id ∨ id ∈ m'.deleted
  deleted_mono : ∀ id ∈ m.deleted, id ∈ m'.deleted

theorem Later.refl (m : Memory) : m.Later m :=
  ⟨rfl, fun _ h => h, fun _ h => Or.inl h, fun _ h => h⟩

theorem Later.trans {m₁ m₂ m₃ : Memory} (h : m₁.Later m₂) (h' : m₂.Later m₃) :
    m₁.Later m₃ where
  numCreated_eq := h'.numCreated_eq.trans h.numCreated_eq
  live_before := fun id hid => h.live_before id (h'.live_before id hid)
  live_or_deleted := by
    intro id hid
    rcases h.live_or_deleted id hid with hid | hid
    · exact h'.live_or_deleted id hid
    · exact Or.inr (h'.deleted_mono id hid)
  deleted_mono := fun id hid => h'.deleted_mono id (h.deleted_mono id hid)

theorem start_wf : start.WF where
  addr_pos := by intro p t h; cases h
  addr_lt := by intro p t h; cases h
  sequence_le := by intro p t h; cases h
  deleted_le := by intro id h; cases h
  deleted_not_live := by intro id h; cases h
  deleted_nodup := List.nodup_nil

/-! ### Allocation -/

@[simp] theorem new_live_self (m : Memory) (p : Addr) (when : Timestamp)
    (interval : Interval) : (m.new p when interval).live p =
      some { expiration := when, interval := interval, sequence := m.numCreated + 1 } :=
  Function.update_self ..

theorem new_live_of_ne (m : Memory) {p q : Addr} (when : Timestamp) (interval : Interval)
    (hq : q ≠ p) : (m.new p when interval).live q = m.live q :=
  Function.update_of_ne hq ..

theorem live_new {m : Memory} {p : Addr} (when : Timestamp) (interval : Interval)
    (hp : m.live p = none) (id : TimerId) :
    (m.new p when interval).Live id ↔ m.Live id ∨ id = ⟨p, m.numCreated + 1⟩ := by
  obtain ⟨q, n⟩ := id
  by_cases hq : q = p
  · subst hq
    simp [Live, hp, eq_comm]
  · simp [Live, new_live_of_ne, hq]

theorem WF.new {m : Memory} (h : m.WF) {p : Addr} (when : Timestamp) (interval : Interval)
    (hp : m.Available p) : (m.new p when interval).WF := by
  obtain ⟨hpos, hmax, hnone⟩ := hp
  -- each fact about a live object is old, or is about the new one
  have hlive : ∀ q t, (m.new p when interval).live q = some t →
      q = p ∧ t.sequence = m.numCreated + 1 ∨ m.live q = some t := by
    intro q t hq
    by_cases hqp : q = p
    · subst hqp
      rw [new_live_self, Option.some.injEq] at hq
      exact Or.inl ⟨rfl, by rw [← hq]⟩
    · rw [new_live_of_ne m when interval hqp] at hq
      exact Or.inr hq
  refine
    { addr_pos := ?_, addr_lt := ?_, sequence_le := ?_, deleted_le := ?_,
      deleted_not_live := ?_, deleted_nodup := h.deleted_nodup }
  · intro q t hq
    rcases hlive q t hq with ⟨rfl, -⟩ | hq
    · exact hpos
    · exact h.addr_pos q t hq
  · intro q t hq
    rcases hlive q t hq with ⟨rfl, -⟩ | hq
    · exact hmax
    · exact h.addr_lt q t hq
  · intro q t hq
    rcases hlive q t hq with ⟨-, hs⟩ | hq
    · exact hs.le
    · exact (h.sequence_le q t hq).trans (Nat.le_succ _)
  · intro id hid
    exact (h.deleted_le id hid).trans (Nat.le_succ _)
  · intro id hid hl
    rcases (live_new when interval hnone id).mp hl with hl | rfl
    · exact h.deleted_not_live id hid hl
    · -- the new sequence number is greater than those of the deleted objects
      have hle := h.deleted_le _ hid
      simp only at hle
      omega

/-! ### Writing to an object -/

@[simp] theorem store_live_self (m : Memory) (p : Addr) (t : Timer) :
    (m.store p t).live p = some t :=
  Function.update_self ..

theorem store_live_of_ne (m : Memory) {p q : Addr} (t : Timer) (hq : q ≠ p) :
    (m.store p t).live q = m.live q :=
  Function.update_of_ne hq ..

theorem live_store {m : Memory} {p : Addr} {t t' : Timer} (hp : m.live p = some t)
    (ht : t'.sequence = t.sequence) (id : TimerId) : (m.store p t').Live id ↔ m.Live id := by
  obtain ⟨q, n⟩ := id
  by_cases hq : q = p
  · subst hq
    simp [Live, hp, ht]
  · simp [Live, store_live_of_ne, hq]

theorem later_store {m : Memory} {p : Addr} {t t' : Timer} (hp : m.live p = some t)
    (ht : t'.sequence = t.sequence) : m.Later (m.store p t') where
  numCreated_eq := rfl
  live_before := fun id hid => (live_store hp ht id).mp hid
  live_or_deleted := fun id hid => Or.inl ((live_store hp ht id).mpr hid)
  deleted_mono := fun _ hid => hid

theorem WF.store {m : Memory} (h : m.WF) {p : Addr} {t t' : Timer} (hp : m.live p = some t)
    (ht : t'.sequence = t.sequence) : (m.store p t').WF := by
  have hlive : ∀ q u, (m.store p t').live q = some u →
      ∃ v, m.live q = some v ∧ v.sequence = u.sequence := by
    intro q u hq
    by_cases hqp : q = p
    · subst hqp
      rw [store_live_self, Option.some.injEq] at hq
      exact ⟨t, hp, by rw [← hq, ht]⟩
    · rw [store_live_of_ne m t' hqp] at hq
      exact ⟨u, hq, rfl⟩
  refine
    { addr_pos := ?_, addr_lt := ?_, sequence_le := ?_, deleted_le := h.deleted_le,
      deleted_not_live := ?_, deleted_nodup := h.deleted_nodup }
  · intro q u hq
    obtain ⟨v, hv, -⟩ := hlive q u hq
    exact h.addr_pos q v hv
  · intro q u hq
    obtain ⟨v, hv, -⟩ := hlive q u hq
    exact h.addr_lt q v hv
  · intro q u hq
    obtain ⟨v, hv, hs⟩ := hlive q u hq
    rw [← hs]
    exact h.sequence_le q v hv
  · intro id hid hl
    exact h.deleted_not_live id hid ((live_store hp ht id).mp hl)

/-! ### Deletion -/

@[simp] theorem remove_live_self (m : Memory) (p : Addr) (t : Timer) :
    (m.remove p t).live p = none :=
  Function.update_self ..

theorem remove_live_of_ne (m : Memory) {p q : Addr} (t : Timer) (hq : q ≠ p) :
    (m.remove p t).live q = m.live q :=
  Function.update_of_ne hq ..

theorem live_remove {m : Memory} {p : Addr} (t : Timer) (id : TimerId) :
    (m.remove p t).Live id ↔ m.Live id ∧ id.timer ≠ p := by
  obtain ⟨q, n⟩ := id
  by_cases hq : q = p
  · subst hq
    simp [Live]
  · simp [Live, remove_live_of_ne, hq]

theorem later_remove {m : Memory} {p : Addr} {t : Timer} (hp : m.live p = some t) :
    m.Later (m.remove p t) where
  numCreated_eq := rfl
  live_before := fun id hid => ((live_remove t id).mp hid).1
  live_or_deleted := by
    intro id hid
    by_cases hq : id.timer = p
    · obtain ⟨u, hu, hs⟩ := hid
      rw [hq, hp, Option.some.injEq] at hu
      subst hu
      have heq : id = ⟨p, t.sequence⟩ := by
        obtain ⟨q, n⟩ := id
        simp_all
      exact Or.inr (List.mem_append_right _ (by rw [heq]; exact List.mem_singleton_self _))
    · exact Or.inl ((live_remove t id).mpr ⟨hid, hq⟩)
  deleted_mono := fun _ hid => List.mem_append_left _ hid

theorem WF.remove {m : Memory} (h : m.WF) {p : Addr} {t : Timer} (hp : m.live p = some t) :
    (m.remove p t).WF := by
  have hid : m.Live ⟨p, t.sequence⟩ := ⟨t, hp, rfl⟩
  have hlive : ∀ q u, (m.remove p t).live q = some u → m.live q = some u := by
    intro q u hq
    by_cases hqp : q = p
    · subst hqp
      rw [remove_live_self] at hq
      cases hq
    · rw [remove_live_of_ne m t hqp] at hq
      exact hq
  refine
    { addr_pos := fun q u hq => h.addr_pos q u (hlive q u hq)
      addr_lt := fun q u hq => h.addr_lt q u (hlive q u hq)
      sequence_le := fun q u hq => h.sequence_le q u (hlive q u hq)
      deleted_le := ?_, deleted_not_live := ?_, deleted_nodup := ?_ }
  · intro id hmem
    rcases List.mem_append.mp hmem with hmem | hmem
    · exact h.deleted_le id hmem
    · rw [List.mem_singleton.mp hmem]
      exact h.sequence_le p t hp
  · intro id hmem hl
    obtain ⟨hl, hne⟩ := (live_remove t id).mp hl
    rcases List.mem_append.mp hmem with hmem | hmem
    · exact h.deleted_not_live id hmem hl
    · rw [List.mem_singleton.mp hmem] at hne
      exact hne rfl
  · show (m.deleted ++ [_]).Nodup
    rw [List.nodup_append]
    refine ⟨h.deleted_nodup, by simp, ?_⟩
    rintro id hmem _ hs rfl
    rw [List.mem_singleton.mp hs] at hmem
    exact h.deleted_not_live _ hmem hid

end Memory

end Zing.Net
