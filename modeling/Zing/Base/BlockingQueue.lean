import Mathlib
import Zing.Lib.Condition
import Zing.Lib.System

set_option autoImplicit false

/-! # The unbounded blocking queue

`BlockingQueue` between any number of threads. An action is what a thread does while it holds
`mutex_`: from the start of a call, or from where `wait()` returns, to the next `wait()` or to
the end of the call. `notify` picks any of the blocked threads, and a blocked thread may wake
up on its own.
-/

namespace Zing.Base

open Zing.Lib

namespace BlockingQueue

variable {T α : Type}

inductive Assertion
  /-- In `take`, behind the loop. -/
  | notEmpty
  /-- In `drain`. -/
  | moved
deriving DecidableEq, Repr

structure State (T α : Type) where
  queue : List α
  notEmpty : Condition T

/-- A queue, with a record of its calls that the queue does not have itself. -/
structure World (T α : Type) where
  state : State T α
  /-- The elements of all calls of `put`. -/
  put : List α
  /-- What `take` and `drain` have returned. -/
  taken : List α

inductive Action (T α : Type)
  /-- `put(x)` by `t`; `choice` is the thread that is notified. -/
  | put (t : T) (x : α) (choice : Option T)
  | take (t : T)
  /-- `wait()` returns in a call of `take`. -/
  | resumeTake (t : T)
  | drain (t : T)
  /-- `t` wakes up without a notification. -/
  | wake (t : T)

variable [DecidableEq T]

/-- `put(x)`, with `choice` the thread that is notified. -/
def State.put (s : State T α) (x : α) (choice : Option T) : State T α where
  queue := s.queue ++ [x]
  notEmpty := s.notEmpty.notify choice

/-- From the condition of the loop in `take` on. A call that waits returns nothing yet. -/
def State.take (s : State T α) (t : T) : Except Assertion (Option α × State T α) :=
  match s.queue with
  | [] => .ok (none, { s with notEmpty := s.notEmpty.wait t })
  | front :: queue => do
      check (s.queue.isEmpty = false) .notEmpty
      return (some front, { s with queue := queue })

/-- The elements are moved out of `queue_`. -/
def State.drain (s : State T α) : Except Assertion (List α × State T α) := do
  let queue := s.queue
  let s := { s with queue := [] }
  check (s.queue.isEmpty = true) .moved
  return (queue, s)

omit [DecidableEq T] in
/-- A call returns `elements`, and leaves the queue in the state `s`. -/
def World.returned (w : World T α) (elements : List α) (s : State T α) : World T α :=
  { w with state := s, taken := w.taken ++ elements }

def step (w : World T α) : Action T α → Option (Except Assertion (World T α))
  | .put t x choice =>
      if ¬ w.state.notEmpty.Waiting t ∧ w.state.notEmpty.CanNotify choice then
        some (.ok { w with state := w.state.put x choice, put := w.put ++ [x] })
      else none
  | .take t =>
      if ¬ w.state.notEmpty.Waiting t then
        some ((w.state.take t).map fun r => w.returned r.1.toList r.2)
      else none
  | .resumeTake t =>
      if w.state.notEmpty.CanResume t then
        some (({ w.state with notEmpty := w.state.notEmpty.resume t }.take t).map
          fun r : Option α × State T α => w.returned r.1.toList r.2)
      else none
  | .drain t =>
      if ¬ w.state.notEmpty.Waiting t then
        some (w.state.drain.map fun r => w.returned r.1 r.2)
      else none
  | .wake t =>
      if t ∈ w.state.notEmpty.blocked then
        some (.ok { w with state := { w.state with notEmpty := w.state.notEmpty.wake t } })
      else none

def start : World T α where
  state := { queue := [], notEmpty := .idle }
  put := []
  taken := []

/-- The runs of a queue from its construction on. -/
def runs : System (World T α) (Action T α) Assertion where
  init := fun w => w = start
  step := step

/-- What holds whenever no thread has `mutex_`: the calls of `take` and `drain` have returned
what the queue does not have any more, and a blocked thread leaves a notified one on its way for
each element. -/
structure Inv (w : World T α) : Prop where
  order : w.taken ++ w.state.queue = w.put
  notEmpty : w.state.notEmpty.Covers w.state.queue.length

variable {s : State T α} {w : World T α} {a : Action T α}

omit [DecidableEq T] in
theorem inv_start : Inv (start : World T α) where
  order := rfl
  notEmpty := Condition.covers_idle

/-- In front of the loop condition one notified thread less may be on its way: the one that
has come back. -/
theorem ends_take {t : T} (hc : s.notEmpty.Covers (s.queue.length - 1)) :
    Ends (fun r : Option α × State T α => r.1.toList ++ r.2.queue = s.queue ∧
      r.2.notEmpty.Covers r.2.queue.length) (fun _ => False) (s.take t) := by
  cases hq : s.queue with
  | nil =>
      simp only [State.take, hq]
      exact ⟨rfl, Condition.covers_zero⟩
  | cons front queue =>
      simp only [State.take, hq]
      rw [check_bind List.isEmpty_cons]
      rw [hq] at hc
      exact ⟨rfl, hc⟩

omit [DecidableEq T] in
/-- What a call returns comes behind what the calls before it have returned. -/
theorem Inv.returned {elements : List α} {u : State T α} (h : w.taken ++ w.state.queue = w.put)
    (ho : elements ++ u.queue = w.state.queue) (hc : u.notEmpty.Covers u.queue.length) :
    Inv (w.returned elements u) where
  order := by
    show w.taken ++ elements ++ u.queue = w.put
    rw [List.append_assoc, ho, h]
  notEmpty := hc

theorem ends_step {r : Except Assertion (World T α)} (h : Inv w) (hs : step w a = some r) :
    Ends Inv (fun _ => False) r := by
  cases a with
  | put t x choice =>
      obtain ⟨⟨-, hchoice⟩, rfl⟩ := of_guard hs
      refine ⟨?_, ?_⟩
      · show w.taken ++ (w.state.queue ++ [x]) = w.put ++ [x]
        rw [← List.append_assoc, h.order]
      · show (w.state.notEmpty.notify choice).Covers (w.state.queue ++ [x]).length
        rw [List.length_append]
        exact h.notEmpty.notify hchoice
  | take t =>
      obtain ⟨-, rfl⟩ := of_guard hs
      have htake := ends_take (t := t) (h.notEmpty.mono (Nat.sub_le _ 1))
      exact htake.map fun _ hr => Inv.returned h.order hr.1 hr.2
  | resumeTake t =>
      obtain ⟨-, rfl⟩ := of_guard hs
      have htake := ends_take (s := { w.state with notEmpty := w.state.notEmpty.resume t })
        (t := t) h.notEmpty.resume
      exact htake.map fun _ hr => Inv.returned h.order hr.1 hr.2
  | drain t =>
      obtain ⟨-, rfl⟩ := of_guard hs
      exact Inv.returned h.order (List.append_nil _) Condition.covers_zero
  | wake t =>
      obtain ⟨-, rfl⟩ := of_guard hs
      exact ⟨h.order, h.notEmpty.wake⟩

/-- The queue keeps the elements in order, no assertion fails, and no wake-up is lost. -/
theorem reachable_safe {P : World T α → Action T α → Prop} (h : runs.Reachable P w) :
    Inv w ∧ ∀ a e, P w a → ¬ runs.Fails w a e := by
  apply h.safe
  · rintro _ rfl
    exact inv_start
  · intro w a r hi _ hs
    exact ends_step hi hs

end BlockingQueue

end Zing.Base
