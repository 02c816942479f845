import Zing.Base.BlockingQueue
import Zing.Lib.CInt

set_option autoImplicit false

/-! # The bounded blocking queue

`BoundedBlockingQueue` between any number of threads, of any capacity that the constructor
accepts. The actions are those of the unbounded queue, and producers wait too, for
`notFull_`. `blockingQueues_keep_order` is the result for both queues.
-/

namespace Zing.Base

open Zing.Lib

namespace BoundedBlockingQueue

variable {T α : Type}

inductive Assertion
  /-- In the constructor. -/
  | maxSize
  /-- In `put`, behind the loop. -/
  | notFull
  /-- In `take`, behind the loop. -/
  | notEmpty
deriving DecidableEq, Repr

structure State (T α : Type) where
  queue : List α
  maxSize : Int
  notEmpty : Condition T
  notFull : Condition T
  /-- The argument of a call of `put` that waits. -/
  putting : T → Option α

/-- A queue, with a record of its calls that the queue does not have itself. -/
structure World (T α : Type) where
  state : State T α
  /-- The elements of the calls of `put` that have returned. -/
  put : List α
  /-- What `take` has returned. -/
  taken : List α

inductive Action (T α : Type)
  /-- `put(x)` by `t`; `choice` is the thread that is notified. -/
  | put (t : T) (x : α) (choice : Option T)
  /-- `wait()` returns in a call of `put`. -/
  | resumePut (t : T) (choice : Option T)
  | take (t : T) (choice : Option T)
  /-- `wait()` returns in a call of `take`. -/
  | resumeTake (t : T) (choice : Option T)
  /-- A consumer wakes up without a notification. -/
  | wakeTake (t : T)
  /-- A producer wakes up without a notification. -/
  | wakePut (t : T)

/-- The size is converted to `int`. -/
def State.isFull (s : State T α) : Bool := decide (narrow 32 s.queue.length = s.maxSize)

variable [DecidableEq T]

/-- From the condition of the loop in `put` on. -/
def State.pushWhenNotFull (s : State T α) (t : T) (x : α) (choice : Option T) :
    Option (Except Assertion (State T α)) :=
  if s.isFull = true then
    some (.ok { s with
      notFull := s.notFull.wait t, putting := Function.update s.putting t (some x) })
  else if s.notEmpty.CanNotify choice then
    some (do
      check (s.isFull = false) .notFull
      return { s with queue := s.queue ++ [x], notEmpty := s.notEmpty.notify choice })
  else none

/-- From the condition of the loop in `take` on. A call that waits returns nothing yet. -/
def State.popWhenNotEmpty (s : State T α) (t : T) (choice : Option T) :
    Option (Except Assertion (Option α × State T α)) :=
  match s.queue with
  | [] => some (.ok (none, { s with notEmpty := s.notEmpty.wait t }))
  | front :: queue =>
      if s.notFull.CanNotify choice then
        some (do
          check (s.queue.isEmpty = false) .notEmpty
          return (some front, { s with queue := queue, notFull := s.notFull.notify choice }))
      else none

/-- The thread is in a call that waits. -/
def State.Waiting (s : State T α) (t : T) : Prop := s.notEmpty.Waiting t ∨ s.notFull.Waiting t

instance (s : State T α) (t : T) : Decidable (s.Waiting t) :=
  inferInstanceAs (Decidable (_ ∨ _))

/-- `put(x)` by `t` has left the queue in the state `s`, and has returned if `t` does not wait. -/
def World.putLeft (w : World T α) (t : T) (x : α) (s : State T α) : World T α where
  state := s
  put := if s.notFull.Waiting t then w.put else w.put ++ [x]
  taken := w.taken

omit [DecidableEq T] in
/-- What `take` returns, and the state that it has left the queue in. -/
def World.takeLeft (w : World T α) (r : Option α × State T α) : World T α :=
  { w with state := r.2, taken := w.taken ++ r.1.toList }

def step (w : World T α) : Action T α → Option (Except Assertion (World T α))
  | .put t x choice =>
      if ¬ w.state.Waiting t then
        (w.state.pushWhenNotFull t x choice).map (Except.map (w.putLeft t x))
      else none
  | .resumePut t choice =>
      match w.state.putting t with
      | some x =>
          if w.state.notFull.CanResume t then
            ({ w.state with notFull := w.state.notFull.resume t }.pushWhenNotFull t x choice).map
              (Except.map (w.putLeft t x))
          else none
      | none => none
  | .take t choice =>
      if ¬ w.state.Waiting t then
        (w.state.popWhenNotEmpty t choice).map (Except.map w.takeLeft)
      else none
  | .resumeTake t choice =>
      if w.state.notEmpty.CanResume t then
        ({ w.state with notEmpty := w.state.notEmpty.resume t }.popWhenNotEmpty t choice).map
          (Except.map w.takeLeft)
      else none
  | .wakeTake t =>
      if t ∈ w.state.notEmpty.blocked then
        some (.ok { w with state := { w.state with notEmpty := w.state.notEmpty.wake t } })
      else none
  | .wakePut t =>
      if t ∈ w.state.notFull.blocked then
        some (.ok { w with state := { w.state with notFull := w.state.notFull.wake t } })
      else none

omit [DecidableEq T] in
/-- The constructor, with its `int`. -/
def construct (maxSize : Int) : Except Assertion (State T α) := do
  check (maxSize > 0) .maxSize
  return {
    queue := [], maxSize := maxSize, notEmpty := .idle, notFull := .idle
    putting := fun _ => none }

/-- The runs of a queue from its construction on. -/
def runs : System (World T α) (Action T α) Assertion where
  init := fun w => ∃ maxSize, Fits 32 maxSize ∧ construct maxSize = .ok w.state ∧
    w.put = [] ∧ w.taken = []
  step := step

/-! ## The invariant -/

def State.freeSlots (s : State T α) : ℕ := (s.maxSize - s.queue.length).toNat

/-- The queue keeps its bound, and while a thread is blocked, this many elements and slots are
covered by notified threads. -/
structure Covered (elements slots : ℕ) (s : State T α) : Prop where
  positive : 0 < s.maxSize
  fits : Fits 32 s.maxSize
  bounded : s.queue.length ≤ s.maxSize
  notEmpty : s.notEmpty.Covers elements
  notFull : s.notFull.Covers slots

/-- All elements and slots of the queue are covered. -/
def State.Settled (s : State T α) : Prop := Covered s.queue.length s.freeSlots s

/-- What holds whenever no thread has `mutex_`: what was put is what was taken and what is in
the queue, in order, and no blocked thread misses an element or a slot. -/
structure Inv (w : World T α) : Prop where
  order : w.taken ++ w.state.queue = w.put
  settled : w.state.Settled

variable {s : State T α} {w : World T α} {a : Action T α} {elements slots : ℕ}

omit [DecidableEq T] in
theorem settled_construct {maxSize : Int} (hf : Fits 32 maxSize)
    (h : construct maxSize = .ok s) : s.Settled ∧ s.queue = [] := by
  have hpos : maxSize > 0 := of_check h
  rw [construct, check_bind hpos] at h
  cases h
  refine ⟨?_, rfl⟩
  exact {
    positive := hpos
    fits := hf
    bounded := hpos.le
    notEmpty := Condition.covers_idle
    notFull := Condition.covers_idle }

omit [DecidableEq T] in
theorem Covered.isFull_iff (h : Covered elements slots s) :
    s.isFull = true ↔ s.queue.length = s.maxSize := by
  have hfits := fits_32.mp h.fits
  have hbound := h.bounded
  have hlength : narrow 32 s.queue.length = s.queue.length := by
    apply narrow_eq (by decide)
    rw [fits_32]
    omega
  rw [State.isFull, decide_eq_true_iff, hlength]

/-- What `put(x)` by `t` leaves behind: the element is in the queue, or `t` waits. -/
structure Pushed (s : State T α) (t : T) (x : α) (u : State T α) : Prop where
  settled : u.Settled
  queue : u.queue = if u.notFull.Waiting t then s.queue else s.queue ++ [x]

/-- In front of the loop in `put`, one notified producer less may be on its way. -/
theorem Covered.ends_push {t : T} {x : α} {choice : Option T} {r : Except Assertion (State T α)}
    (h : Covered s.queue.length (s.freeSlots - 1) s) (ht : ¬ s.notFull.Waiting t)
    (hr : s.pushWhenNotFull t x choice = some r) : Ends (Pushed s t x) (fun _ => False) r := by
  rw [State.pushWhenNotFull] at hr
  split at hr
  · case isTrue hfull =>
      cases hr
      have hlength := h.isFull_iff.mp hfull
      have hslots : s.freeSlots = 0 := by
        rw [State.freeSlots, hlength, sub_self]
        rfl
      refine ⟨⟨h.positive, h.fits, h.bounded, h.notEmpty, ?_⟩, ?_⟩
      · show (s.notFull.wait t).Covers s.freeSlots
        rw [hslots]
        exact Condition.covers_zero
      · exact (if_pos (Condition.waiting_wait.mpr (Or.inl rfl))).symm
  · case isFalse hfull =>
      obtain ⟨hchoice, rfl⟩ := of_guard hr
      rw [check_bind (Bool.eq_false_iff.mpr hfull)]
      have hlength : ¬ (s.queue.length : Int) = s.maxSize := fun he =>
        hfull (h.isFull_iff.mpr he)
      have hbound := h.bounded
      have hpushed : (s.queue ++ [x]).length = s.queue.length + 1 := by
        rw [List.length_append, List.length_singleton]
      refine ⟨⟨h.positive, h.fits, ?_, ?_, ?_⟩, (if_neg ht).symm⟩
      · show ((s.queue ++ [x]).length : Int) ≤ s.maxSize
        omega
      · show (s.notEmpty.notify choice).Covers (s.queue ++ [x]).length
        rw [hpushed]
        exact h.notEmpty.notify hchoice
      · apply h.notFull.mono
        simp only [State.freeSlots, hpushed]
        omega

/-- What `take` leaves behind, and what it returns. -/
structure Popped (s : State T α) (r : Option α × State T α) : Prop where
  settled : r.2.Settled
  queue : r.1.toList ++ r.2.queue = s.queue

/-- In front of the loop in `take`, one notified consumer less may be on its way. -/
theorem Covered.ends_pop {t : T} {choice : Option T}
    {r : Except Assertion (Option α × State T α)}
    (h : Covered (s.queue.length - 1) s.freeSlots s)
    (hr : s.popWhenNotEmpty t choice = some r) : Ends (Popped s) (fun _ => False) r := by
  have hbound := h.bounded
  have hnotEmpty := h.notEmpty
  cases hq : s.queue with
  | nil =>
      simp only [State.popWhenNotEmpty, hq, Option.some.injEq] at hr
      subst hr
      have hslots := h.notFull
      rw [State.freeSlots, hq] at hslots
      rw [hq] at hbound
      exact ⟨⟨h.positive, h.fits, hbound, Condition.covers_zero, hslots⟩, hq.symm⟩
  | cons front queue =>
      simp only [State.popWhenNotEmpty, hq] at hr
      obtain ⟨hchoice, rfl⟩ := of_guard hr
      rw [check_bind List.isEmpty_cons]
      rw [hq] at hbound hnotEmpty
      rw [List.length_cons] at hbound
      have hslots : (s.maxSize - queue.length).toNat = s.freeSlots + 1 := by
        rw [State.freeSlots, hq, List.length_cons]
        omega
      refine ⟨⟨h.positive, h.fits, ?_, hnotEmpty, ?_⟩, hq.symm⟩
      · show (queue.length : Int) ≤ s.maxSize
        omega
      · show (s.notFull.notify choice).Covers (s.maxSize - queue.length).toNat
        rw [hslots]
        exact h.notFull.notify hchoice

/-- An element comes behind all others that were put. -/
theorem Inv.putLeft {t : T} {x : α} {u : State T α} (h : Inv w) (hu : Pushed w.state t x u) :
    Inv (w.putLeft t x u) where
  order := by
    show w.taken ++ u.queue = if u.notFull.Waiting t then w.put else w.put ++ [x]
    rw [hu.queue]
    split
    · exact h.order
    · rw [← List.append_assoc, h.order]
  settled := hu.settled

omit [DecidableEq T] in
theorem Inv.takeLeft {r : Option α × State T α} (h : Inv w) (hr : Popped w.state r) :
    Inv (w.takeLeft r) where
  order := by
    show w.taken ++ r.1.toList ++ r.2.queue = w.put
    rw [List.append_assoc, hr.queue, h.order]
  settled := hr.settled

theorem ends_step {r : Except Assertion (World T α)} (h : Inv w) (hs : step w a = some r) :
    Ends Inv (fun _ => False) r := by
  have hsettled : Covered w.state.queue.length w.state.freeSlots w.state := h.settled
  cases a with
  | put t x choice =>
      obtain ⟨hwait, hmap⟩ := of_guard' hs
      obtain ⟨r, hr, rfl⟩ := Option.map_eq_some_iff.mp hmap
      have hcan : Covered w.state.queue.length (w.state.freeSlots - 1) w.state :=
        { hsettled with notFull := hsettled.notFull.mono (Nat.sub_le _ 1) }
      have hpush := Covered.ends_push hcan (fun hw => hwait (Or.inr hw)) hr
      exact hpush.map fun u hu => h.putLeft hu
  | resumePut t choice =>
      simp only [step] at hs
      split at hs
      · obtain ⟨hresume, hmap⟩ := of_guard' hs
        obtain ⟨r, hr, rfl⟩ := Option.map_eq_some_iff.mp hmap
        have hcan : Covered w.state.queue.length (w.state.freeSlots - 1)
            { w.state with notFull := w.state.notFull.resume t } :=
          { hsettled with notFull := hsettled.notFull.resume }
        have hpush := Covered.ends_push hcan (Condition.not_waiting_resume hresume) hr
        apply hpush.map
        intro u hu
        exact h.putLeft ⟨hu.settled, hu.queue⟩
      · cases hs
  | take t choice =>
      obtain ⟨-, hmap⟩ := of_guard' hs
      obtain ⟨r, hr, rfl⟩ := Option.map_eq_some_iff.mp hmap
      have hcan : Covered (w.state.queue.length - 1) w.state.freeSlots w.state :=
        { hsettled with notEmpty := hsettled.notEmpty.mono (Nat.sub_le _ 1) }
      exact (Covered.ends_pop hcan hr).map fun _ hr => h.takeLeft hr
  | resumeTake t choice =>
      obtain ⟨-, hmap⟩ := of_guard' hs
      obtain ⟨r, hr, rfl⟩ := Option.map_eq_some_iff.mp hmap
      have hcan : Covered (w.state.queue.length - 1) w.state.freeSlots
          { w.state with notEmpty := w.state.notEmpty.resume t } :=
        { hsettled with notEmpty := hsettled.notEmpty.resume }
      exact (Covered.ends_pop hcan hr).map fun _ hr => h.takeLeft ⟨hr.settled, hr.queue⟩
  | wakeTake t =>
      obtain ⟨-, rfl⟩ := of_guard hs
      exact ⟨h.order, { hsettled with notEmpty := hsettled.notEmpty.wake }⟩
  | wakePut t =>
      obtain ⟨-, rfl⟩ := of_guard hs
      exact ⟨h.order, { hsettled with notFull := hsettled.notFull.wake }⟩

theorem reachable_safe {P : World T α → Action T α → Prop} (h : runs.Reachable P w) :
    Inv w ∧ ∀ a e, P w a → ¬ runs.Fails w a e := by
  apply h.safe
  · rintro u ⟨maxSize, hf, hu, hput, htaken⟩
    obtain ⟨hsettled, hqueue⟩ := settled_construct hf hu
    refine ⟨?_, hsettled⟩
    rw [hput, htaken, hqueue]
    rfl
  · intro w a r hi _ hs
    exact ends_step hi hs

end BoundedBlockingQueue

/-! ## Both queues -/

section queues

variable {T α : Type} [DecidableEq T]

/-- In every run of either queue, the elements taken and the elements in the queue are together
those put, in order; the bounded queue never has more than `maxSize_` elements; no assertion
fails; and as long as a thread is blocked, there is a notified thread on its way for each
element or free slot that it could have. -/
theorem blockingQueues_keep_order (w : BoundedBlockingQueue.World T α)
    (v : BlockingQueue.World T α)
    (hw : BoundedBlockingQueue.runs.Reachable System.always w)
    (hv : BlockingQueue.runs.Reachable System.always v) :
    (w.taken ++ w.state.queue = w.put ∧ w.state.queue.length ≤ w.state.maxSize ∧
      (∀ a e, ¬ BoundedBlockingQueue.runs.Fails w a e) ∧
      (∀ t ∈ w.state.notEmpty.blocked,
        w.state.queue.length ≤ w.state.notEmpty.notified.card) ∧
      ∀ t ∈ w.state.notFull.blocked,
        w.state.maxSize - w.state.queue.length ≤ w.state.notFull.notified.card) ∧
    (v.taken ++ v.state.queue = v.put ∧ (∀ a e, ¬ BlockingQueue.runs.Fails v a e) ∧
      ∀ t ∈ v.state.notEmpty.blocked,
        v.state.queue.length ≤ v.state.notEmpty.notified.card) := by
  obtain ⟨hinv, hsafe⟩ := BoundedBlockingQueue.reachable_safe hw
  obtain ⟨hinv', hsafe'⟩ := BlockingQueue.reachable_safe hv
  constructor
  · refine ⟨hinv.order, hinv.settled.bounded, fun a e => hsafe a e trivial, ?_, ?_⟩
    · intro t ht
      exact hinv.settled.notEmpty ⟨t, ht⟩
    · intro t ht
      have hslots : w.state.freeSlots ≤ w.state.notFull.notified.card :=
        hinv.settled.notFull ⟨t, ht⟩
      rw [BoundedBlockingQueue.State.freeSlots] at hslots
      omega
  · refine ⟨hinv'.order, fun a e => hsafe' a e trivial, ?_⟩
    intro t ht
    exact hinv'.notEmpty ⟨t, ht⟩

/-- A consumer waits for the first element, and a producer for the slot that it leaves; in the
other queue an element that nobody was notified of is drained. -/
theorem blockingQueues_keep_order_sample :
    ∃ (w : BoundedBlockingQueue.World ℕ Char) (v : BlockingQueue.World ℕ Char),
      BoundedBlockingQueue.runs.Reachable System.always w ∧
        BlockingQueue.runs.Reachable System.always v ∧
        w.taken = ['a'] ∧ 2 ∈ w.state.notFull.notified ∧ v.taken = ['a', 'b'] ∧
        w.taken ++ w.state.queue = w.put ∧ v.taken ++ v.state.queue = v.put := by
  have hw := System.run_of_exec (rfl : BoundedBlockingQueue.runs.exec
    { state := { queue := [], maxSize := 1, notEmpty := .idle, notFull := .idle
                 putting := fun _ => none }
      put := [], taken := [] }
    [.take 0 none, .put 1 'a' (some 0), .put 2 'b' none, .resumeTake 0 (some 2)] =
      some (.ok _))
  have hv := System.run_of_exec (rfl : BlockingQueue.runs.exec BlockingQueue.start
    [.take 0, .put 1 'a' (some 0), .put 1 'b' none, .drain 2] = some (.ok _))
  have hreach : BoundedBlockingQueue.runs.Reachable System.always _ :=
    ⟨_, _, ⟨1, by decide, rfl, rfl, rfl⟩, hw⟩
  have hreach' : BlockingQueue.runs.Reachable System.always _ := ⟨_, _, rfl, hv⟩
  have hall := blockingQueues_keep_order _ _ hreach hreach'
  exact ⟨_, _, hreach, hreach', rfl, by decide, rfl, hall.1.1, hall.2.1⟩

end queues

end Zing.Base
